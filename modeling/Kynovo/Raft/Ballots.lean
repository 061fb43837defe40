import Kynovo.Raft.Stance

/-! One leader a term, over the moves of all nodes of a cluster. Beside the nodes
stands a record of every vote that was cast and of every term that was led. A
node that gave up its office in its term has an entry of that term at the end
of its log, which is what keeps it from voting again: its vote is forgotten. -/
namespace Kynovo.Raft.Ballots
open Kynovo.Raft.Stance

/-! ## Majorities -/

theorem countP_disjoint {α : Type} (first second : α → Bool) (voters : List α)
    (apart : ∀ voter ∈ voters, first voter = true → second voter = false) :
    voters.countP first + voters.countP second ≤ voters.length := by
  induction voters with
  | nil => rfl
  | cons voter rest ih =>
    have smaller := ih (fun other held => apart other (List.mem_cons_of_mem _ held))
    simp only [List.countP_cons, List.length_cons]
    cases chosen : first voter with
    | false =>
      cases second voter <;> simp <;> omega
    | true =>
      rw [apart voter List.mem_cons_self chosen]
      simp
      omega

theorem majorities_meet {α : Type} (first second : α → Bool) (voters : List α)
    (most : voters.length / 2 + 1 ≤ voters.countP first)
    (too : voters.length / 2 + 1 ≤ voters.countP second) :
    ∃ voter ∈ voters, first voter = true ∧ second voter = true := by
  by_contra none
  push Not at none
  have few := countP_disjoint first second voters
    (fun voter held chosen => Bool.eq_false_iff.mpr (none voter held chosen))
  omega

/-! ## The record -/

/-- Who voted for whom in a term, 0 for nobody, and who led it. -/
structure Record where
  cast : Int → Int → Int
  led : Int → Int → Prop

def Record.note (record : Record) (voter term candidate : Int) : Record where
  cast := fun p t => if p = voter ∧ t = term then candidate else record.cast p t
  led := record.led

def Record.crown (record : Record) (leader term : Int) : Record where
  cast := record.cast
  led := fun p t => record.led p t ∨ (p = leader ∧ t = term)

/-- What the record says for a message. -/
def Backed (record : Record) (message : PeerMessage) : Prop :=
  match message.rpc with
  | .requestVoteResult result => result.voteGranted = true → result.preVote = false →
      message.target ≠ 0 ∧ record.cast message.sender result.term = message.target
  | .appendEntries rpc => record.led message.sender rpc.term
  | .installSnapshot rpc => record.led message.sender rpc.term
  | _ => True

/-- The record grows, and only about one node. -/
structure Grows (about : Int) (record record' : Record) : Prop where
  kept : ∀ p term, record.cast p term ≠ 0 → record'.cast p term = record.cast p term
  led : ∀ p term, record.led p term → record'.led p term
  others : ∀ p, p ≠ about → record'.cast p = record.cast p ∧ record'.led p = record.led p

variable {voters : List Int} {saves : Prop} {heard sent : PeerMessage → Prop} {nodes : Int → View} {v v' : View}
  {record record' : Record} {p : Int}

theorem Grows.refl (about : Int) (record : Record) : Grows about record record :=
  ⟨fun _ _ _ => rfl, fun _ _ led => led, fun _ _ => ⟨rfl, rfl⟩⟩

theorem Backed.mono (grows : Grows p record record') {message : PeerMessage}
    (backed : Backed record message) : Backed record' message := by
  unfold Backed at backed ⊢
  split
  · rename_i result shape
    simp only [shape] at backed
    intro granted real
    obtain ⟨some, cast⟩ := backed granted real
    exact ⟨some, (grows.kept _ _ (by rw [cast]; exact some)).trans cast⟩
  · rename_i rpc shape
    simp only [shape] at backed
    exact grows.led _ _ backed
  · rename_i rpc shape
    simp only [shape] at backed
    exact grows.led _ _ backed
  · trivial

theorem note_other {term later candidate : Int} (other : later ≠ term) :
    (record.note p term candidate).cast p later = record.cast p later := by
  simp [Record.note, other]

theorem note_grows {term candidate : Int} (free : record.cast p term = 0) :
    Grows p record (record.note p term candidate) where
  kept := fun q t cast => by
    unfold Record.note
    dsimp only
    split
    · rename_i same
      rw [same.1, same.2] at cast
      exact absurd free cast
    · rfl
  led := fun _ _ led => led
  others := fun q other => ⟨funext (fun t => by simp [Record.note, other]), rfl⟩

theorem crown_grows (term : Int) : Grows p record (record.crown p term) where
  kept := fun _ _ _ => rfl
  led := fun _ _ led => .inl led
  others := fun q other => ⟨rfl, funext (fun t => by simp [Record.crown, other])⟩

/-- A node whose vote of the term is forgotten: it led the term, and its log shows
it. -/
structure Spent (record : Record) (p : Int) (v : View) : Prop where
  led : record.led p v.term
  ends : v.term ≤ lastTerm v.log
  installs : v.installs = false
  taken : v.dirty = true → v.taken.lastIndex = raftLogLastIndex v.log → v.term ≤ v.taken.lastTerm

structure Accounted (voters : List Int) (record : Record) (p : Int) (v : View) : Prop where
  id : v.id = p
  settled : Settled voters v
  vote : v.vote ≠ 0 → record.cast p v.term = v.vote
  future : ∀ term, v.term < term → record.cast p term = 0
  reached : ∀ term, record.led p term → term ≤ v.term
  spent : record.cast p v.term ≠ 0 → v.vote = 0 → Spent record p v
  ballots : v.role = .candidate → ∀ seat ∈ v.seats, seat.vote = true →
    record.cast seat.id v.term = p
  leads : v.role = .leader → record.led p v.term
  said : ∀ message ∈ v.said, Backed record message

/-- A leader had the votes of a majority. -/
def Won (voters : List Int) (record : Record) : Prop :=
  ∀ p term, record.led p term →
    p ≠ 0 ∧ voters.length / 2 + 1 ≤ voters.countP (fun voter => record.cast voter term == p)

structure Sound (voters : List Int) (nodes : Int → View) (sent : PeerMessage → Prop)
    (record : Record) : Prop where
  nodes : ∀ p ∈ voters, Accounted voters record p (nodes p)
  won : Won voters record
  sent : ∀ message, sent message → Fair voters message ∧ Backed record message

theorem Won.unique (won : Won voters record) {i j term : Int} (first : record.led i term)
    (second : record.led j term) : i = j := by
  obtain ⟨voter, -, one, other⟩ := majorities_meet _ _ voters (won i term first).2 (won j term second).2
  exact (beq_iff_eq.mp one).symm.trans (beq_iff_eq.mp other)

theorem Accounted.other {q : Int} (accounted : Accounted voters record q v)
    (grows : Grows p record record') (other : q ≠ p) (positive : q ≠ 0) :
    Accounted voters record' q v := by
  obtain ⟨cast, led⟩ := grows.others q other
  constructor
  · exact accounted.id
  · exact accounted.settled
  · rw [cast]
    exact accounted.vote
  · rw [cast]
    exact accounted.future
  · rw [led]
    exact accounted.reached
  · rw [cast]
    intro voted none
    obtain ⟨ledTerm, ends, installs, taken⟩ := accounted.spent voted none
    exact ⟨by rw [led]; exact ledTerm, ends, installs, taken⟩
  · intro stands seat held voted
    have was := accounted.ballots stands seat held voted
    exact (grows.kept _ _ (by rw [was]; exact positive)).trans was
  · rw [led]
    exact accounted.leads
  · exact fun message held => (accounted.said message held).mono grows

/-- Sound after one node has moved and the record has grown with it. -/
theorem Sound.update (sound : Sound voters nodes sent record) (grows : Grows p record record')
    (positive : ∀ q ∈ voters, 0 < q) (accounted : Accounted voters record' p v')
    (won : Won voters record') : Sound voters (Function.update nodes p v') sent record' where
  nodes := fun q member => by
    cases decEq q p with
    | isTrue same =>
      subst same
      rw [Function.update_self]
      exact accounted
    | isFalse other =>
      rw [Function.update_of_ne other]
      exact (sound.nodes q member).other grows other (positive q member).ne'
  won := won
  sent := fun message given =>
    ⟨(sound.sent message given).1, (sound.sent message given).2.mono grows⟩

/-! ## One move -/

theorem compacted_last {log log' : Log} {idx term : Int}
    (cut : raftLogCompactPrefix log idx term = some log') :
    idx ≤ raftLogLastIndex log ∧ (idx = raftLogLastIndex log → lastTerm log' = term) ∧
      (idx < raftLogLastIndex log → lastTerm log' = lastTerm log) := by
  unfold raftLogCompactPrefix at cut
  split at cut
  · cases cut
  · rename_i inside
    cases cut
    simp only [Bool.or_eq_true, decide_eq_true_eq, not_or, not_lt] at inside
    obtain ⟨low, high⟩ := inside
    refine ⟨high, fun whole => ?_, fun part => ?_⟩
    · subst whole
      simp [lastTerm, raftLogTermAt, raftLogLastIndex]
    · unfold raftLogLastIndex at high part
      have base : ¬ log.lastIncludedIndex + (log.entries.length : Int) ≤ log.lastIncludedIndex := by
        omega
      have kept : ¬ idx + ((log.entries.length - (idx - log.lastIncludedIndex).toNat : Nat) : Int) ≤
          idx := by
        omega
      have same : (idx - log.lastIncludedIndex).toNat +
          (idx + ((log.entries.length - (idx - log.lastIncludedIndex).toNat : Nat) : Int) - idx -
            1).toNat =
          (log.lastIncludedIndex + (log.entries.length : Int) - log.lastIncludedIndex - 1).toNat := by
        omega
      simp only [lastTerm, raftLogTermAt, raftLogLastIndex, Log.entryAt, Log.offset,
        List.length_drop, base, kept, if_false, List.getElem?_drop, same]

section
variable (accounted : Accounted voters record p v)
include accounted

theorem Accounted.ease (eases : Eases voters v v') : Accounted voters record p v' where
  id := eases.id.trans accounted.id
  settled := eases.settled accounted.settled
  vote := by
    rw [eases.vote, eases.term]
    exact accounted.vote
  future := by
    rw [eases.term]
    exact accounted.future
  reached := by
    rw [eases.term]
    exact accounted.reached
  spent := by
    rw [eases.term, eases.vote]
    intro voted none
    obtain ⟨led, ends, installs, taken⟩ := accounted.spent voted none
    refine ⟨by rwa [eases.term], by rwa [eases.term, eases.log], ?_, fun dirty => ?_⟩
    · cases installing : v'.installs with
      | false => rfl
      | true =>
        rw [eases.installs installing] at installs
        cases installs
    · rw [eases.taken.2.1, eases.taken.2.2, eases.term, eases.log]
      exact taken (eases.dirty dirty)
  ballots := fun stands seat held voted => by
    have stood : v.role = .candidate := by
      rcases eases.role with same | follows
      · rw [← same]
        exact stands
      · rw [follows] at stands
        cases stands
    obtain ⟨was, isOld, id, counted⟩ := eases.seats seat held voted
    rw [← id, eases.term]
    exact accounted.ballots stood was isOld counted
  leads := fun leads => by
    have led : v.role = .leader := by
      rcases eases.role with same | follows
      · rw [← same]
        exact leads
      · rw [follows] at leads
        cases leads
    rw [eases.term]
    exact accounted.leads led
  said := fun message held => accounted.said message (eases.said message held)

theorem Accounted.newer {term : Int} (above : v.term < term) : Accounted voters record p { v with
    term
    vote := 0
    role := .follower
    answer := none } where
  id := accounted.id
  settled := accounted.settled.newer above.le
  vote := fun some => absurd rfl some
  future := fun later after => accounted.future later (above.trans after)
  reached := fun led given => (accounted.reached led given).trans above.le
  spent := fun voted _ => absurd (accounted.future term above) voted
  ballots := nofun
  leads := nofun
  said := accounted.said

theorem Accounted.leave (leads : v.role = .leader) (ends : v.term ≤ lastTerm v.log) :
    Accounted voters record p { v with
      vote := 0
      role := .follower
      answer := none
      dirty := false
      installs := false } where
  id := accounted.id
  settled := by
    have left := accounted.settled.newer (le_refl v.term)
    exact { left with
      bounded := { left.bounded with }
      standing := nofun
      leading := nofun
      answer := nofun }
  vote := fun some => absurd rfl some
  future := accounted.future
  reached := accounted.reached
  spent := fun _ _ => ⟨accounted.leads leads, ends, rfl, nofun⟩
  ballots := nofun
  leads := nofun
  said := accounted.said

/-- A candidate votes for itself, in a term in which it has not voted. -/
theorem Accounted.stand (positive : 0 < p) :
    Accounted voters (record.note p (v.term + 1) p) p { v with
      term := v.term + 1
      vote := v.id
      role := .candidate
      answer := none
      seats := v.seats.map clearVote } where
  id := accounted.id
  settled := accounted.settled.stand
  vote := fun _ => by simp [Record.note, accounted.id]
  future := fun term after => by
    dsimp only at after
    rw [note_other (by omega)]
    exact accounted.future term (by omega)
  reached := fun term led => (accounted.reached term led).trans (by dsimp only; omega)
  spent := fun _ none => by
    have own : v.id = 0 := none
    rw [accounted.id] at own
    exact absurd own positive.ne'
  ballots := fun _ seat held voted => by
    obtain ⟨was, -, rfl⟩ := List.mem_map.mp held
    cases voted
  leads := nofun
  said := fun message held =>
    (accounted.said message held).mono (note_grows (accounted.future _ (by omega)))

/-- The vote that is cast is the first one of the term, or the one already cast. -/
theorem Accounted.cast {message : PeerMessage} {rpc : RequestVote} (positive : 0 < p)
    (shape : message.rpc = .requestVote rpc) (fair : Fair voters message)
    (real : rpc.preVote = false) (now : rpc.term = v.term) (valid : 0 < rpc.candidateId)
    (free : v.vote = 0 ∨ v.vote = rpc.candidateId) (upToDate : lastTerm v.log ≤ rpc.lastLogTerm) :
    Grows p record (record.note p v.term rpc.candidateId) ∧
      Accounted voters (record.note p v.term rpc.candidateId) p { v with
        vote := rpc.candidateId
        answer := some message.sender } := by
  simp only [Fair, shape] at fair
  obtain ⟨-, same, older⟩ := fair real
  -- a forgotten vote would have left an entry of this term, newer than the candidate's
  have unspent : record.cast p v.term ≠ 0 → v.vote ≠ 0 := by
    intro voted none
    have ends := (accounted.spent voted none).ends
    omega
  have agrees : record.cast p v.term = 0 ∨ record.cast p v.term = rpc.candidateId := by
    by_cases voted : record.cast p v.term = 0
    · exact .inl voted
    · have kept := free.resolve_left (unspent voted)
      exact .inr ((accounted.vote (unspent voted)).trans kept)
  have grows : Grows p record (record.note p v.term rpc.candidateId) := by
    rcases agrees with none | already
    · exact note_grows none
    · have unchanged : record.note p v.term rpc.candidateId = record := by
        unfold Record.note
        congr
        funext q t
        split
        · rename_i here
          rw [here.1, here.2, already]
        · rfl
      rw [unchanged]
      exact .refl p record
  refine ⟨grows, ?_⟩
  constructor
  · exact accounted.id
  · exact accounted.settled.cast valid same free (by rw [accounted.id]; exact positive.ne')
  · exact fun _ => by simp [Record.note]
  · intro term after
    dsimp only at after
    rw [note_other after.ne']
    exact accounted.future term after
  · exact accounted.reached
  · intro _ none
    dsimp only at none
    omega
  · intro stands seat held voted
    have was := accounted.ballots stands seat held voted
    exact (grows.kept _ _ (by rw [was]; exact positive.ne')).trans was
  · exact accounted.leads
  · exact fun message held => (accounted.said message held).mono grows

theorem Accounted.count {message : PeerMessage} {result : RequestVoteResult}
    (shape : message.rpc = .requestVoteResult result) (granted : result.voteGranted = true)
    (real : result.preVote = false) (now : result.term = v.term) (backed : Backed record message)
    (target : message.target = p) :
    Accounted voters record p { v with seats := markSeat v.seats message.sender } where
  id := accounted.id
  settled := { accounted.settled with
    seated := accounted.settled.seated.mark message.sender
    bounded := { accounted.settled.bounded with }
    standing := fun stands => ⟨(accounted.settled.standing stands).1,
      (accounted.settled.standing stands).2.1, { (accounted.settled.standing stands).2.2 with }⟩ }
  vote := accounted.vote
  future := accounted.future
  reached := accounted.reached
  spent := fun voted none => { accounted.spent voted none with }
  ballots := fun stands seat held voted => by
    obtain ⟨was, isOld, id, -, -, counted⟩ := mem_markSeat held
    rcases counted voted with already | sender
    · rw [← id]
      exact accounted.ballots stands was isOld already
    · simp only [Backed, shape] at backed
      rw [sender, ← target, ← now]
      exact (backed granted real).2
  leads := accounted.leads
  said := accounted.said

/-- The votes a candidate has counted were cast for it. -/
theorem Accounted.majority (positive : 0 < p) (stands : v.role = .candidate) :
    1 + v.seats.countP Seat.vote ≤ voters.countP (fun voter => record.cast voter v.term == p) := by
  have own : record.cast p v.term = p := by
    have mine := (accounted.settled.standing stands).1.trans accounted.id
    rw [accounted.vote (by rw [mine]; exact positive.ne'), mine]
  rw [← accounted.settled.seated.others.countP_eq, accounted.id, List.countP_cons, List.countP_map]
  have counted : v.seats.countP Seat.vote ≤
      v.seats.countP ((fun voter => record.cast voter v.term == p) ∘ Seat.id) :=
    List.countP_mono_left (fun seat held voted =>
      beq_iff_eq.mpr (accounted.ballots stands seat held voted))
  simp only [own, beq_self_eq_true, if_true]
  omega

theorem Accounted.lead (positive : 0 < p) (stands : v.role = .candidate) :
    Accounted voters (record.crown p v.term) p { v with
      role := .leader
      log := raftLogAppend v.log (noopEntry v.term) } where
  id := accounted.id
  settled := accounted.settled.lead stands
  vote := accounted.vote
  future := accounted.future
  reached := fun term led => by
    rcases led with old | ⟨-, rfl⟩
    · exact accounted.reached term old
    · exact le_refl _
  spent := fun _ none => by
    have mine := (accounted.settled.standing stands).1.trans accounted.id
    have given : v.vote = 0 := none
    rw [mine] at given
    exact absurd given positive.ne'
  ballots := nofun
  leads := fun _ => .inr ⟨rfl, rfl⟩
  said := fun message held => (accounted.said message held).mono (crown_grows v.term)

/-- A change of the log or of a received snapshot, in a node whose vote is not
forgotten. -/
theorem Accounted.rewrite (kept : record.cast p v.term ≠ 0 → v.vote ≠ 0)
    (settled : Settled voters v') (id : v'.id = v.id) (term : v'.term = v.term)
    (vote : v'.vote = v.vote) (role : v'.role = v.role) (seats : FewerVotes v.seats v'.seats)
    (said : v'.said = v.said) : Accounted voters record p v' where
  id := id.trans accounted.id
  settled := settled
  vote := by
    rw [vote, term]
    exact accounted.vote
  future := by
    rw [term]
    exact accounted.future
  reached := by
    rw [term]
    exact accounted.reached
  spent := fun voted none => by
    rw [term] at voted
    rw [vote] at none
    exact absurd none (kept voted)
  ballots := fun stands seat held voted => by
    rw [role] at stands
    obtain ⟨was, isOld, id, counted⟩ := seats seat held voted
    rw [← id, term]
    exact accounted.ballots stands was isOld counted
  leads := by
    rw [role, term]
    exact accounted.leads
  said := by
    rw [said]
    exact accounted.said

/-- The leader of a term hears nothing from another one. -/
theorem Accounted.unspent_of_led {message : PeerMessage} (won : Won voters record)
    (led : record.led message.sender v.term) (target : message.target = p)
    (other : message.target ≠ message.sender) : record.cast p v.term ≠ 0 → v.vote ≠ 0 := by
  intro voted none
  exact other (target.trans (won.unique (accounted.spent voted none).led led))

theorem Accounted.take (idx : Int) (steady : v.role ≠ .candidate) :
    Accounted voters record p { v with
      taken := ⟨idx, raftLogTermAt v.log idx, 0, voters, voters, []⟩
      dirty := true } where
  id := accounted.id
  settled := accounted.settled.take idx steady
  vote := accounted.vote
  future := accounted.future
  reached := accounted.reached
  spent := fun voted none => by
    obtain ⟨led, ends, installs, -⟩ := accounted.spent voted none
    refine ⟨led, ends, installs, fun _ whole => ?_⟩
    dsimp only at whole ⊢
    rw [whole]
    exact ends
  ballots := accounted.ballots
  leads := accounted.leads
  said := accounted.said

theorem Accounted.compact {log : Log} (dirty : v.dirty = true)
    (compacted : raftLogCompactPrefix v.log v.taken.lastIndex v.taken.lastTerm = some log) :
    Accounted voters record p { v with
      log
      snapshot := v.taken
      dirty := false
      taken := { v.taken with
        cfgOld := []
        cfgNew := []
        cfgLearners := [] } } where
  id := accounted.id
  settled := accounted.settled.compact compacted
  vote := accounted.vote
  future := accounted.future
  reached := accounted.reached
  spent := fun voted none => by
    obtain ⟨led, ends, installs, taken⟩ := accounted.spent voted none
    obtain ⟨inside, whole, part⟩ := compacted_last compacted
    refine ⟨led, ?_, installs, nofun⟩
    dsimp only
    rcases inside.lt_or_eq with below | same
    · rw [part below]
      exact ends
    · rw [whole same]
      exact taken dirty same
  ballots := accounted.ballots
  leads := accounted.leads
  said := accounted.said

theorem Accounted.say {messages : List PeerMessage}
    (said : ∀ message ∈ messages,
      message.sender = v.id ∧ Fair voters message ∧ Vouched saves v message) :
    Accounted voters record p { v with said := v.said ++ messages } where
  id := accounted.id
  settled := { accounted.settled with
    bounded := { accounted.settled.bounded with }
    standing := fun stands => ⟨(accounted.settled.standing stands).1,
      (accounted.settled.standing stands).2.1, { (accounted.settled.standing stands).2.2 with }⟩
    fair := fun message held => by
      rcases List.mem_append.mp held with old | isNew
      · exact accounted.settled.fair message old
      · exact ⟨(said message isNew).1, (said message isNew).2.1⟩ }
  vote := accounted.vote
  future := accounted.future
  reached := accounted.reached
  spent := fun voted none => { accounted.spent voted none with }
  ballots := accounted.ballots
  leads := accounted.leads
  said := fun message held => by
    rcases List.mem_append.mp held with old | isNew
    · exact accounted.said message old
    · obtain ⟨sender, -, vouched⟩ := said message isNew
      have here : message.sender = p := sender.trans accounted.id
      unfold Backed
      unfold Vouched at vouched
      split
      · rename_i result shape
        simp only [shape] at vouched
        intro _ _
        obtain ⟨vote, valid⟩ := accounted.settled.answer _ vouched.2
        refine ⟨valid.ne', ?_⟩
        rw [here, vouched.1, accounted.vote (by rw [vote]; exact valid.ne'), vote]
      · rename_i rpc shape
        simp only [shape] at vouched
        rw [here, vouched.2.1]
        exact accounted.leads vouched.1
      · rename_i rpc shape
        simp only [shape] at vouched
        rw [here, vouched.2.2]
        exact accounted.leads vouched.2.1
      · trivial

end

/-- What one move of a node leaves of the record. -/
theorem Sound.move (sound : Sound voters nodes sent record) (positive : ∀ q ∈ voters, 0 < q)
    (member : p ∈ voters) (move : Move voters saves heard (nodes p) v')
    (delivered : ∀ message, heard message → sent message ∧ message.target = p) :
    ∃ record', (∀ q term, record.led q term → record'.led q term) ∧
      Sound voters (Function.update nodes p v') sent record' := by
  have accounted := sound.nodes p member
  have own := positive p member
  have still (here : Accounted voters record p v') :
      ∃ record', (∀ q term, record.led q term → record'.led q term) ∧
        Sound voters (Function.update nodes p v') sent record' :=
    ⟨record, fun _ _ led => led, sound.update (.refl p record) positive here sound.won⟩
  have settled := move.settled accounted.settled (by rw [accounted.id]; exact own.ne')
  have led_from {message : PeerMessage} {rpcTerm : Int} (given : heard message)
      (now : rpcTerm = (nodes p).term)
      (led : Backed record message → record.led message.sender rpcTerm)
      (other : message.target ≠ message.sender) :
      record.cast p (nodes p).term ≠ 0 → (nodes p).vote ≠ 0 :=
    accounted.unspent_of_led sound.won
      (now ▸ led (sound.sent message (delivered message given).1).2) (delivered message given).2 other
  cases move with
  | ease eases => exact still (accounted.ease eases)
  | newer term above => exact still (accounted.newer above)
  | leave leads ends => exact still (accounted.leave leads ends)
  | stand =>
    have grows : Grows p record (record.note p ((nodes p).term + 1) p) :=
      note_grows (accounted.future ((nodes p).term + 1) (by omega))
    refine ⟨_, grows.led, sound.update grows positive (accounted.stand own) ?_⟩
    intro q term led
    refine ⟨(sound.won q term led).1, (sound.won q term led).2.trans ?_⟩
    refine List.countP_mono_left (fun voter _ voted => ?_)
    have cast := beq_iff_eq.mp voted
    rw [beq_iff_eq, grows.kept voter term (by rw [cast]; exact (sound.won q term led).1)]
    exact cast
  | cast message rpc _ shape fair real now valid free upToDate =>
    obtain ⟨grows, here⟩ := accounted.cast own shape fair real now valid free upToDate
    refine ⟨_, grows.led, sound.update grows positive here ?_⟩
    intro q term led
    refine ⟨(sound.won q term led).1, (sound.won q term led).2.trans ?_⟩
    refine List.countP_mono_left (fun voter _ voted => ?_)
    have cast := beq_iff_eq.mp voted
    rw [beq_iff_eq, grows.kept voter term (by rw [cast]; exact (sound.won q term led).1)]
    exact cast
  | count message result given shape granted real now stands =>
    obtain ⟨isSent, target⟩ := delivered message given
    exact still (accounted.count shape granted real now (sound.sent message isSent).2 target)
  | lead stands won =>
    refine ⟨_, (crown_grows (nodes p).term).led,
      sound.update (crown_grows (nodes p).term) positive (accounted.lead own stands) ?_⟩
    intro q term led
    rcases led with old | ⟨rfl, rfl⟩
    · exact sound.won q term old
    · exact ⟨own.ne', won.trans (accounted.majority own stands)⟩
  | append new leads _ =>
    refine still (accounted.rewrite ?_ settled rfl rfl rfl rfl (fun seat held voted =>
      ⟨seat, held, rfl, voted⟩) rfl)
    intro _ none
    rw [accounted.settled.leading leads, accounted.id] at none
    exact own.ne' none
  | splice message rpc given shape fair now follows log spliced =>
    simp only [Fair, shape] at fair
    refine still (accounted.rewrite (led_from given now ?_ fair.1) settled rfl rfl rfl rfl
      (fun seat held voted => ⟨seat, held, rfl, voted⟩) rfl)
    intro backed
    simpa only [Backed, shape] using backed
  | receive message rpc given shape fair now follows received installs named bounded =>
    simp only [Fair, shape] at fair
    refine still (accounted.rewrite (led_from given now ?_ fair.1) settled rfl rfl rfl rfl
      (fun seat held voted => ⟨seat, held, rfl, voted⟩) rfl)
    intro backed
    simpa only [Backed, shape] using backed
  | install installs seats _ fresh =>
    refine still (accounted.rewrite ?_ settled rfl rfl rfl rfl (fun seat held voted => ?_) rfl)
    · intro voted none
      rw [(accounted.spent voted none).installs] at installs
      cases installs
    · rw [fresh seat held] at voted
      cases voted
  | take idx _ steady => exact still (accounted.take idx steady)
  | compact log dirty compacted => exact still (accounted.compact dirty compacted)
  | say messages said => exact still (accounted.say said)

/-- What any moves of a node leave of the record. -/
theorem Sound.moves (sound : Sound voters nodes sent record) (positive : ∀ q ∈ voters, 0 < q)
    (member : p ∈ voters) (moves : Moves voters saves heard (nodes p) v')
    (delivered : ∀ message, heard message → sent message ∧ message.target = p) :
    ∃ record', (∀ q term, record.led q term → record'.led q term) ∧
      Sound voters (Function.update nodes p v') sent record' := by
  induction moves with
  | refl => exact ⟨record, fun _ _ led => led, by rwa [Function.update_eq_self]⟩
  | @tail between next _ move ih =>
    obtain ⟨middle, grown, before⟩ := ih
    have here : Move voters saves heard (Function.update nodes p between p) next := by
      rw [Function.update_self]
      exact move
    obtain ⟨last, more, after⟩ := before.move positive member here delivered
    rw [Function.update_idem] at after
    exact ⟨last, fun q term led => more q term (grown q term led), after⟩

end Kynovo.Raft.Ballots
