import Kynovo.Lib.Lineage
import Kynovo.Raft.Cluster

/-! Log matching. Where no node saves snapshots every log goes back to its first
entry. Each term has one history, the log of its only leader as far as it got, and
every log is rooted in the histories: an entry of a term stands where the leader of
that term put it, after the same entries. -/
namespace Kynovo.Raft.Matching
open Kynovo.Lib.Lineage
open Kynovo.Raft.Stance
open Kynovo.Raft.Conduct
open Kynovo.Raft.Ballots
open Kynovo.Raft.Cluster
open Kynovo.Raft.NodeEdits (tickState)

variable {voters : List Int} {log log' : Log} {leader : List Entry} {history history' : Int → List Entry}

/-! ## Entries in the log of a follower -/

/-- A log that begins with the first entry. -/
structure Full (log : Log) : Prop where
  index : log.lastIncludedIndex = 0
  term : log.lastIncludedTerm = 0

theorem Full.lastIndex (full : Full log) : raftLogLastIndex log = log.entries.length := by
  simp [raftLogLastIndex, full.index]

theorem Full.termAt (full : Full log) {n : Nat} (held : n < log.entries.length) :
    raftLogTermAt log (n + 1) = (log.entries[n]).term := by
  have place : log.offset (n + 1) = n := by simp [Log.offset, full.index]
  have above : ¬ (n : Int) + 1 ≤ log.lastIncludedIndex := by
    rw [full.index]
    omega
  simp [raftLogTermAt, Log.entryAt, above, place, held]

/-- The term at the end of a log. -/
theorem Full.lastTerm_concat (full : Full log) (front : List Entry) (last : Entry)
    (entries : log.entries = front ++ [last]) : lastTerm log = last.term := by
  have held : front.length < log.entries.length := by simp [entries]
  have size : raftLogLastIndex log = (front.length : Int) + 1 := by simp [full.lastIndex, entries]
  unfold lastTerm
  rw [size, full.termAt held]
  simp [entries]

/-- The scan of the entries of a message goes along the leader's history as far as the
follower has it, and what is left over continues it. -/
theorem scan_follows (full : Full log) (rooted : Rooted Entry.term history log.entries)
    (line : Rooted Entry.term history leader) {items new : List Entry} {cutTo : Option Int} {n : Nat}
    (common : log.entries.take n = leader.take n) (piece : items <+: leader.drop n)
    (scanned : scanEntries log (n + 1) items = .splice cutTo new) :
    ∃ m, ((cutTo.bind (raftLogTruncate log)).getD log).entries = leader.take m ∧
      new <+: leader.drop m := by
  induction items generalizing n with
  | nil => cases scanned
  | cons entry rest ih =>
    have inside : n < leader.length := by
      have short := piece.length_le
      rw [List.length_drop, List.length_cons] at short
      omega
    rw [List.drop_eq_getElem_cons inside, List.cons_prefix_cons] at piece
    obtain ⟨here, later⟩ := piece
    unfold scanEntries at scanned
    split at scanned
    · cases scanned
    · split at scanned
      · rename_i matched
        simp only [Bool.and_eq_true, decide_eq_true_eq, full.lastIndex] at matched
        have held : n < log.entries.length := by omega
        have same : (log.entries[n]).term = (leader[n]).term := by
          rw [← full.termAt held, matched.2, here]
        exact ih (n := n + 1) (rooted.agree line held inside same) later
          (by simpa using scanned)
      · split at scanned
        · rename_i covered
          rw [full.lastIndex] at covered
          split at scanned
          · cases scanned
          · cases scanned
            refine ⟨n, ?_, ?_⟩
            · have before : (n : Int) + 1 - 1 = n := by omega
              have reached : ¬ (n : Int) < 0 := by omega
              simp [before, raftLogTruncate, full.index, reached, common]
            · rw [List.drop_eq_getElem_cons inside, here]
              exact List.cons_prefix_cons.mpr ⟨rfl, later⟩
        · rename_i beyond
          rw [full.lastIndex] at beyond
          cases scanned
          refine ⟨n, ?_, ?_⟩
          · have whole : log.entries.take n = log.entries := List.take_of_length_le (by omega)
            rw [whole] at common
            exact common
          · rw [List.drop_eq_getElem_cons inside, here]
            exact List.cons_prefix_cons.mpr ⟨rfl, later⟩

/-- The entries of a message are a piece of a history, after an entry of the named term. -/
structure Cites (history : Int → List Entry) (rpc : AppendEntries) : Prop where
  place : 0 ≤ rpc.prevLogIndex
  piece : rpc.entries <+: (history rpc.term).drop rpc.prevLogIndex.toNat
  after : rpc.entries ≠ [] → ∀ n (held : n < (history rpc.term).length),
    rpc.prevLogIndex = n + 1 → rpc.prevLogTerm = ((history rpc.term)[n]).term

theorem appendNew_prefix (stored : ∀ entry ∈ leader, storedEntry entry = entry) {m : Nat}
    {new : List Entry} (start : log.entries = leader.take m) (piece : new <+: leader.drop m) :
    (appendNew log new).entries <+: leader := by
  have front : new.take 1 ++ (new.drop 1).takeWhile (fun entry => !termOutOfRange entry.term) <+:
      leader.drop m := by
    refine List.IsPrefix.trans ?_ piece
    conv => rhs; rw [← List.take_append_drop 1 new]
    exact (List.prefix_append_right_inj _).mpr (List.takeWhile_prefix _)
  obtain ⟨rest, shape⟩ := front
  refine ⟨rest, ?_⟩
  have same : (new.take 1 ++ (new.drop 1).takeWhile
      (fun entry => !termOutOfRange entry.term)).map storedEntry =
      new.take 1 ++ (new.drop 1).takeWhile (fun entry => !termOutOfRange entry.term) := by
    refine (List.map_congr_left (fun entry held => ?_)).trans (List.map_id _)
    refine stored entry (List.mem_of_mem_drop (i := m) ?_)
    rw [← shape]
    exact List.mem_append_left _ held
  show log.entries ++ _ ++ rest = leader
  rw [same, start, List.append_assoc, shape, List.take_append_drop]

/-- A follower that takes entries in holds the beginning of the sender's history. -/
theorem Spliced.follows {rpc : AppendEntries} (spliced : Spliced log rpc log') (full : Full log)
    (rooted : Rooted Entry.term history log.entries)
    (line : Rooted Entry.term history (history rpc.term))
    (stored : ∀ entry ∈ history rpc.term, storedEntry entry = entry) (cites : Cites history rpc) :
    log'.entries <+: history rpc.term := by
  obtain ⟨meets, cutTo, new, scanned, rfl⟩ := spliced
  obtain ⟨n, place⟩ := Int.eq_ofNat_of_zero_le cites.place
  have piece := cites.piece
  rw [place] at piece scanned
  have some : 0 < rpc.entries.length := by
    cases items : rpc.entries with
    | nil =>
      rw [items] at scanned
      cases scanned
    | cons entry rest => simp
  have inside : n < (history rpc.term).length := by
    have short := piece.length_le
    rw [List.length_drop] at short
    simp only [Int.toNat_natCast] at short
    omega
  have common : log.entries.take n = (history rpc.term).take n := by
    cases n with
    | zero => rfl
    | succ before =>
      unfold prevMismatch at meets
      rw [place, full.lastIndex, full.index] at meets
      split at meets
      · split at meets
        · cases meets
        · rename_i long
          split at meets
          · cases meets
          · split at meets
            · cases meets
            · rename_i term
              have held : before < log.entries.length := by omega
              have held' : before < (history rpc.term).length := by omega
              refine rooted.agree line held held' ?_
              rw [← full.termAt held, ← cites.after (List.length_pos_iff.mp some) before held'
                (by rw [place]; rfl)]
              simpa using term
      · omega
  obtain ⟨m, start, front⟩ := scan_follows full rooted line common piece scanned
  exact appendNew_prefix stored start front

theorem Cites.grow {rpc : AppendEntries} (cites : Cites history rpc)
    (grown : ∀ t, history t <+: history' t) : Cites history' rpc where
  place := cites.place
  piece := cites.piece.trans ((grown _).drop _)
  after := by
    intro some n held place
    have inside : n < (history rpc.term).length := by
      have short := cites.piece.length_le
      have filled := List.length_pos_iff.mpr some
      rw [List.length_drop, place] at short
      omega
    rw [cites.after some n inside place]
    obtain ⟨rest, whole⟩ := grown rpc.term
    simp only [← whole, List.getElem_append_left inside]

theorem Quotes.cites {rpc : AppendEntries} (quotes : Quotes log rpc) (full : Full log)
    (whole : log.entries = history rpc.term) : Cites history rpc := by
  obtain ⟨place, term, count, entries⟩ := quotes
  rw [full.index] at place
  have start : log.offset (rpc.prevLogIndex + 1) = rpc.prevLogIndex.toNat := by
    simp [Log.offset, full.index]
  rw [start, whole] at entries
  refine ⟨place, ?_, fun _ n held same => ?_⟩
  · rw [entries]
    exact List.take_prefix _ _
  · have held' : n < log.entries.length := by rwa [whole]
    rw [term, same, full.termAt held']
    simp only [whole]

/-! ## Nodes that save nothing -/

def carriesSnapshot (message : PeerMessage) : Bool :=
  match message.rpc with
  | .installSnapshot _ => true
  | _ => false

structure Whole (v : View) : Prop where
  full : Full v.log
  dirty : v.dirty = false
  installs : v.installs = false
  ends : v.role = .leader → v.term ≤ lastTerm v.log
  said : ∀ message ∈ v.said, carriesSnapshot message = false

theorem Spliced.full {rpc : AppendEntries} (spliced : Spliced log rpc log') (full : Full log) :
    Full log' := by
  obtain ⟨-, cutTo, new, -, rfl⟩ := spliced
  have kept : Full ((cutTo.bind (raftLogTruncate log)).getD log) := by
    cases cut : cutTo.bind (raftLogTruncate log) with
    | none => exact full
    | some shorter =>
      obtain ⟨idx, -, made⟩ := Option.bind_eq_some_iff.mp cut
      unfold raftLogTruncate at made
      split at made
      · cases made
      · cases made
        exact ⟨full.index, full.term⟩
  exact ⟨kept.index, kept.term⟩

variable {heard sent : PeerMessage → Prop} {v v' : View}

theorem Move.whole (move : Move voters False heard v v')
    (unsaved : ∀ message, heard message → carriesSnapshot message = false) (whole : Whole v) :
    Whole v' := by
  cases move with
  | ease eases =>
    refine ⟨by rw [eases.log]; exact whole.full, ?_, ?_, fun leads => ?_, fun message held =>
      whole.said message (eases.said message held)⟩
    · exact Bool.eq_false_iff.mpr (fun set => Bool.eq_false_iff.mp whole.dirty (eases.dirty set))
    · exact Bool.eq_false_iff.mpr (fun set =>
        Bool.eq_false_iff.mp whole.installs (eases.installs set))
    · rw [eases.term, eases.log]
      rcases eases.role with same | follows
      · exact whole.ends (same.symm.trans leads)
      · rw [follows] at leads
        cases leads
  | newer term above => exact { whole with ends := nofun }
  | leave leads ends => exact { whole with dirty := rfl, installs := rfl, ends := nofun }
  | stand => exact { whole with ends := nofun }
  | cast message rpc _ _ _ _ _ _ _ _ => exact { whole with }
  | count message result _ _ _ _ _ _ => exact { whole with }
  | lead stands won =>
    have full : Full (raftLogAppend v.log (noopEntry v.term)) := ⟨whole.full.index, whole.full.term⟩
    refine { whole with full, ends := fun _ => ?_ }
    rw [full.lastTerm_concat v.log.entries _ rfl, storedEntry_term]
    exact le_refl _
  | append new leads own =>
    have full : Full { v.log with entries := v.log.entries ++ new } :=
      ⟨whole.full.index, whole.full.term⟩
    refine { whole with full, ends := fun _ => ?_ }
    cases new using List.reverseRecOn with
    | nil =>
      simp only [List.append_nil]
      exact whole.ends leads
    | append_singleton front last =>
      rw [full.lastTerm_concat (v.log.entries ++ front) last (List.append_assoc _ _ _).symm,
        (own last (by simp)).1]
  | splice message rpc _ _ _ _ follows log spliced =>
    exact { whole with full := Spliced.full spliced whole.full, ends := by rw [follows]; exact nofun }
  | receive message rpc taken shape _ _ _ _ _ _ _ =>
    have plain := unsaved message taken
    simp [carriesSnapshot, shape] at plain
  | install installs _ _ _ =>
    rw [whole.installs] at installs
    cases installs
  | take idx allowed _ => exact allowed.elim
  | compact log dirty _ =>
    rw [whole.dirty] at dirty
    cases dirty
  | say messages said =>
    refine { whole with said := fun message held => ?_ }
    rcases List.mem_append.mp held with old | isNew
    · exact whole.said message old
    · have vouched := (said message isNew).2.2
      unfold Vouched at vouched
      unfold carriesSnapshot
      split
      · rename_i rpc shape
        rw [shape] at vouched
        exact vouched.1.elim
      · rfl

/-! ## Histories -/

/-- A history is rooted in the histories itself, in the stored form, and its terms never
fall. -/
structure Line (history : Int → List Entry) (term : Int) : Prop where
  rooted : Rooted Entry.term history (history term)
  stored : ∀ entry ∈ history term, storedEntry entry = entry
  rising : (history term).Pairwise (fun a b => a.term ≤ b.term)

variable {nodes : Int → View} {record record' : Record} {p : Int}

/-- The histories of a cluster: a leader holds the history of its term, and only who has
led a term, and does not stand in it again, has put anything into its history. -/
structure Traced (voters : List Int) (nodes : Int → View) (sent : PeerMessage → Prop)
    (record : Record) (history : Int → List Entry) : Prop where
  sound : Sound voters nodes sent record
  whole : ∀ p ∈ voters, Whole (nodes p)
  unsaved : ∀ message, sent message → carriesSnapshot message = false
  rooted : ∀ p ∈ voters, Rooted Entry.term history (nodes p).log.entries
  leads : ∀ p ∈ voters, (nodes p).role = .leader → (nodes p).log.entries = history (nodes p).term
  owned : ∀ t, history t ≠ [] → ∃ q ∈ voters, record.led q t ∧ t ≤ (nodes q).term ∧
    ((nodes q).term = t → (nodes q).role ≠ .candidate)
  lines : ∀ t, Line history t
  cites : ∀ message rpc, sent message → message.rpc = .appendEntries rpc → Cites history rpc
  said : ∀ p ∈ voters, ∀ message ∈ (nodes p).said, ∀ rpc,
    message.rpc = .appendEntries rpc → Cites history rpc

/-- A node does not stand again in the term it is in. -/
structure Later (v v' : View) : Prop where
  term : v.term ≤ v'.term
  role : v'.term = v.term → v'.role = .candidate → v.role = .candidate

theorem Move.later {saves : Prop} (move : Move voters saves heard v v') : Later v v' := by
  cases move with
  | ease eases =>
    refine ⟨eases.term.ge, fun _ stands => ?_⟩
    rcases eases.role with same | follows
    · exact same.symm.trans stands
    · rw [follows] at stands
      cases stands
  | newer term above => exact ⟨above.le, nofun⟩
  | leave leads ends => exact ⟨le_refl _, nofun⟩
  | stand => exact ⟨by simp, fun same => absurd same (by simp)⟩
  | lead stands won => exact ⟨le_refl _, nofun⟩
  | _ => exact ⟨le_refl _, fun _ stands => stands⟩

/-- One node has moved, and the histories have grown with it. -/
theorem Traced.update (traced : Traced voters nodes sent record history) (member : p ∈ voters)
    (sound : Sound voters (Function.update nodes p v') sent record')
    (more : ∀ q term, record.led q term → record'.led q term) (whole : Whole v')
    (later : Later (nodes p) v') (grown : ∀ t, history t <+: history' t)
    (lines : ∀ t, Line history' t) (rooted : Rooted Entry.term history' v'.log.entries)
    (leads : v'.role = .leader → v'.log.entries = history' v'.term)
    (others : ∀ q ∈ voters, q ≠ p → (nodes q).role = .leader →
      history' (nodes q).term = history (nodes q).term)
    (owned : ∀ t, history' t ≠ [] → history t ≠ [] ∨
      record'.led p t ∧ t ≤ v'.term ∧ (v'.term = t → v'.role ≠ .candidate))
    (said : ∀ message ∈ v'.said, ∀ rpc, message.rpc = .appendEntries rpc → Cites history' rpc) :
    Traced voters (Function.update nodes p v') sent record' history' := by
  refine ⟨sound, fun q isVoter => ?_, traced.unsaved, fun q isVoter => ?_, fun q isVoter => ?_,
    fun t filled => ?_, lines, fun message rpc given shape =>
      (traced.cites message rpc given shape).grow grown, fun q isVoter => ?_⟩
  · cases decEq q p with
    | isTrue same => rwa [same, Function.update_self]
    | isFalse other =>
      rw [Function.update_of_ne other]
      exact traced.whole q isVoter
  · cases decEq q p with
    | isTrue same => rwa [same, Function.update_self]
    | isFalse other =>
      rw [Function.update_of_ne other]
      exact (traced.rooted q isVoter).grow grown
  · cases decEq q p with
    | isTrue same => rwa [same, Function.update_self]
    | isFalse other =>
      rw [Function.update_of_ne other]
      exact fun reigns =>
        (traced.leads q isVoter reigns).trans (others q isVoter other reigns).symm
  · rcases owned t filled with old | isNew
    · obtain ⟨q, isVoter, led, reached, settled⟩ := traced.owned t old
      refine ⟨q, isVoter, more q t led, ?_⟩
      cases decEq q p with
      | isTrue same =>
        subst same
        rw [Function.update_self]
        refine ⟨reached.trans later.term, fun now stands => ?_⟩
        have kept : (nodes q).term = t := le_antisymm (now ▸ later.term) reached
        exact settled kept (later.role (now.trans kept.symm) stands)
      | isFalse other =>
        rw [Function.update_of_ne other]
        exact ⟨reached, settled⟩
    · refine ⟨p, member, ?_⟩
      rwa [Function.update_self]
  · cases decEq q p with
    | isTrue same => rwa [same, Function.update_self]
    | isFalse other =>
      rw [Function.update_of_ne other]
      exact fun message held rpc shape => (traced.said q isVoter message held rpc shape).grow grown

/-- A leader puts entries of its term behind its log. -/
theorem Traced.grow (traced : Traced voters nodes sent record history) (member : p ∈ voters)
    (sound : Sound voters (Function.update nodes p v') sent record')
    (more : ∀ q term, record.led q term → record'.led q term) (whole : Whole v')
    (later : Later (nodes p) v') (leads : v'.role = .leader) (term : v'.term = (nodes p).term)
    (kept : v'.said = (nodes p).said) (new : List Entry)
    (entries : v'.log.entries = (nodes p).log.entries ++ new)
    (own : ∀ entry ∈ new, entry.term = v'.term ∧ storedEntry entry = entry)
    (before : history v'.term <+: (nodes p).log.entries) :
    ∃ history', (∀ t, history t <+: history' t) ∧
      Traced voters (Function.update nodes p v') sent record' history' := by
  have grown : ∀ t, history t <+: Function.update history v'.term v'.log.entries t := by
    intro t
    cases decEq t v'.term with
    | isTrue same =>
      rw [same, Function.update_self, entries]
      exact before.trans (List.prefix_append _ _)
    | isFalse other => rw [Function.update_of_ne other]
  have accounted := sound.nodes p member
  rw [Function.update_self] at accounted
  have led : record'.led p v'.term := accounted.leads leads
  have rooted : Rooted Entry.term (Function.update history v'.term v'.log.entries)
      ((nodes p).log.entries ++ new) := by
    refine ((traced.rooted p member).grow grown).extend (t := v'.term)
      (fun entry held => (own entry held).1) ?_
    rw [Function.update_self, entries]
  rw [← entries] at rooted
  have old : Rooted Entry.term history (nodes p).log.entries := traced.rooted p member
  have stored : ∀ entry ∈ (nodes p).log.entries, storedEntry entry = entry :=
    old.carry (P := fun items => ∀ entry ∈ items, storedEntry entry = entry) nofun
      (fun front all entry held => all entry (front.subset held)) (fun t => (traced.lines t).stored)
  have rising : (nodes p).log.entries.Pairwise (fun a b => a.term ≤ b.term) :=
    old.carry List.Pairwise.nil (fun front all => all.sublist front.sublist)
      (fun t => (traced.lines t).rising)
  refine ⟨_, grown, traced.update member sound more whole later grown (fun t => ?_) rooted
    (fun _ => by rw [Function.update_self]) (fun q isVoter other reigns => ?_)
    (fun t filled => ?_) (fun message held rpc shape => ?_)⟩
  · cases decEq t v'.term with
    | isTrue same =>
      subst same
      refine ⟨by rwa [Function.update_self], ?_, ?_⟩
      · rw [Function.update_self, entries]
        intro entry held
        rcases List.mem_append.mp held with isOld | isNew
        · exact stored entry isOld
        · exact (own entry isNew).2
      · rw [Function.update_self, entries]
        refine List.pairwise_append.mpr ⟨rising, ?_, fun a isOld b isNew => ?_⟩
        · refine List.Pairwise.imp_of_mem (R := fun _ _ => True) (fun isNew isNew' _ => ?_)
            (List.pairwise_of_forall (fun _ _ => trivial))
          rw [(own _ isNew).1, (own _ isNew').1]
        · rw [(own b isNew).1, term]
          exact (traced.sound.nodes p member).settled.bounded.entries a isOld
    | isFalse other =>
      have line := traced.lines t
      refine ⟨?_, ?_, ?_⟩
      · rw [Function.update_of_ne other]
        exact line.rooted.grow grown
      · rw [Function.update_of_ne other]
        exact line.stored
      · rw [Function.update_of_ne other]
        exact line.rising
  · refine Function.update_of_ne (fun same => other ?_) _ _
    have theirs := more q _ ((traced.sound.nodes q isVoter).leads reigns)
    rw [same] at theirs
    exact sound.won.unique theirs led
  · cases decEq t v'.term with
    | isTrue same =>
      subst same
      exact .inr ⟨led, le_refl _, fun _ stands => by rw [leads] at stands; cases stands⟩
    | isFalse other =>
      rw [Function.update_of_ne other] at filled
      exact .inl filled
  · rw [kept] at held
    exact (traced.said p member message held rpc shape).grow grown

/-- A move that leaves the histories as they are. -/
theorem Traced.still (traced : Traced voters nodes sent record history) (member : p ∈ voters)
    (sound : Sound voters (Function.update nodes p v') sent record')
    (more : ∀ q term, record.led q term → record'.led q term) (whole : Whole v')
    (later : Later (nodes p) v') (rooted : Rooted Entry.term history v'.log.entries)
    (leads : v'.role = .leader → v'.log.entries = history v'.term)
    (said : ∀ message ∈ v'.said, ∀ rpc, message.rpc = .appendEntries rpc → Cites history rpc) :
    ∃ history', (∀ t, history t <+: history' t) ∧
      Traced voters (Function.update nodes p v') sent record' history' :=
  ⟨history, fun _ => List.prefix_refl _, traced.update member sound more whole later
    (fun _ => List.prefix_refl _) traced.lines rooted leads (fun _ _ _ _ => rfl)
    (fun _ filled => .inl filled) said⟩

/-- What one move of a node leaves of the histories. -/
theorem Traced.move (traced : Traced voters nodes sent record history)
    (positive : ∀ q ∈ voters, 0 < q) (member : p ∈ voters)
    (move : Move voters False heard (nodes p) v')
    (delivered : ∀ message, heard message → sent message ∧ message.target = p) :
    ∃ record', (∀ q term, record.led q term → record'.led q term) ∧
      ∃ history', (∀ t, history t <+: history' t) ∧
        Traced voters (Function.update nodes p v') sent record' history' := by
  obtain ⟨record', more, sound⟩ := traced.sound.move positive member move delivered
  refine ⟨record', more, ?_⟩
  have later := Move.later move
  have whole := Move.whole move (fun message given =>
    traced.unsaved message (delivered message given).1) (traced.whole p member)
  have rooted := traced.rooted p member
  have leads := traced.leads p member
  have said := traced.said p member
  cases move with
  | ease eases =>
    refine traced.still member sound more whole later (by rwa [eases.log]) (fun reigns => ?_)
      (fun message held => said message (eases.said message held))
    rw [eases.log, eases.term]
    rcases eases.role with same | follows
    · exact leads (same.symm.trans reigns)
    · rw [follows] at reigns
      cases reigns
  | newer term above => exact traced.still member sound more whole later rooted nofun said
  | leave reigns ends => exact traced.still member sound more whole later rooted nofun said
  | stand => exact traced.still member sound more whole later rooted nofun said
  | lead stands won =>
    have led : record'.led p (nodes p).term := by
      have accounted := sound.nodes p member
      rw [Function.update_self] at accounted
      exact accounted.leads rfl
    -- nobody else has led the term, and the node itself would not stand again
    have fresh : history (nodes p).term = [] := by
      by_contra filled
      obtain ⟨q, isVoter, ledBefore, -, settled⟩ := traced.owned _ filled
      have same := sound.won.unique (more q _ ledBefore) led
      subst same
      exact settled rfl stands
    refine traced.grow member sound more whole later rfl rfl rfl [storedEntry (noopEntry _)] rfl
      (fun entry held => ?_) ?_
    · cases List.mem_singleton.mp held
      exact ⟨rfl, rfl⟩
    · show history (nodes p).term <+: _
      rw [fresh]
      exact List.nil_prefix
  | append new reigns own =>
    refine traced.grow member sound more whole later reigns rfl rfl new rfl
      (fun entry held => ⟨(own entry held).1, (own entry held).2.2⟩) ?_
    show history (nodes p).term <+: _
    rw [leads reigns]
  | splice message rpc given shape _ now follows log spliced =>
    have line := traced.lines rpc.term
    have front := Spliced.follows spliced (traced.whole p member).full rooted line.rooted line.stored
      (traced.cites message rpc (delivered message given).1 shape)
    refine traced.still member sound more whole later (line.rooted.of_prefix front) ?_ said
    rw [follows]
    exact nofun
  | take idx allowed _ => exact allowed.elim
  | compact log dirty _ =>
    rw [(traced.whole p member).dirty] at dirty
    cases dirty
  | install installs _ _ _ =>
    rw [(traced.whole p member).installs] at installs
    cases installs
  | say messages isSaid =>
    refine traced.still member sound more whole later rooted leads (fun message held rpc shape => ?_)
    rcases List.mem_append.mp held with old | isNew
    · exact said message old rpc shape
    · have vouched := (isSaid message isNew).2.2
      unfold Vouched at vouched
      simp only [shape] at vouched
      refine Quotes.cites vouched.2.2 (traced.whole p member).full ?_
      rw [vouched.2.1]
      exact leads vouched.1
  | cast message rpc _ _ _ _ _ _ _ _ =>
    exact traced.still member sound more whole later rooted leads said
  | count message result _ _ _ _ _ _ =>
    exact traced.still member sound more whole later rooted leads said
  | receive message rpc _ _ _ _ _ _ _ _ _ =>
    exact traced.still member sound more whole later rooted leads said

/-! ## A cluster that saves no snapshots -/

variable {config : Int → CreateConfig} {cluster : State} {led : List (Int × Int)}

/-- The histories of a cluster, with a record of who was seen leading. -/
def Remembered (voters : List Int) (led : List (Int × Int)) (nodes : Int → View)
    (sent : PeerMessage → Prop) : Prop :=
  ∃ record history, Traced voters nodes sent record history ∧
    ∀ seen ∈ led, record.led seen.1 seen.2

theorem remembered_moves (positive : ∀ q ∈ voters, 0 < q)
    (remembered : Remembered voters led nodes sent) (member : p ∈ voters)
    (moves : Moves voters False heard (nodes p) v')
    (delivered : ∀ message, heard message → sent message ∧ message.target = p) :
    Remembered voters led (Function.update nodes p v') sent := by
  induction moves with
  | refl => rwa [Function.update_eq_self]
  | @tail between next _ move ih =>
    obtain ⟨record, history, traced, seen⟩ := ih
    have here : Function.update nodes p between p = between := Function.update_self _ _ _
    rw [← here] at move
    obtain ⟨record', more, history', -, after⟩ := traced.move positive member move delivered
    rw [Function.update_idem] at after
    exact ⟨record', history', after, fun item held => more _ _ (seen item held)⟩

theorem Traced.release {sent' : PeerMessage → Prop}
    (traced : Traced voters nodes sent record history) (member : p ∈ voters)
    (more : ∀ message, sent' message →
      sent message ∨ (weighty message = true → message ∈ (nodes p).said)) :
    Traced voters nodes sent' record history where
  sound := sound_release traced.sound member more
  whole := traced.whole
  unsaved := fun message given => by
    rcases more message given with old | said
    · exact traced.unsaved message old
    · cases shape : message.rpc with
      | installSnapshot rpc =>
        exact (traced.whole p member).said message (said (by simp [weighty, shape]))
      | _ => simp [carriesSnapshot, shape]
  rooted := traced.rooted
  leads := traced.leads
  owned := traced.owned
  lines := traced.lines
  cites := fun message rpc given shape => by
    rcases more message given with old | said
    · exact traced.cites message rpc old shape
    · exact traced.said p member message (said (by simp [weighty, shape])) rpc shape
  said := traced.said

theorem remembered_lasts (positive : ∀ q ∈ voters, 0 < q) (led : List (Int × Int)) :
    Lasting voters False (Remembered voters led) where
  sound := fun ⟨record, _, traced, _⟩ => ⟨record, traced.sound⟩
  moves := fun remembered member moves delivered =>
    remembered_moves positive remembered member moves delivered
  release := fun ⟨record, history, traced, seen⟩ member more =>
    ⟨record, history, traced.release member more, seen⟩

theorem traced_start (members : Members config voters)
    (created : ∀ id ∈ voters, Run.start (config id) = some (cluster.run id)) :
    Traced voters (views cluster) (cluster.sent voters) Record.blank (fun _ => []) := by
  obtain ⟨same, silent⟩ := start_views members created
  refine ⟨sound_start members created, fun id member => ?_, fun message given =>
    (silent message given).elim, fun id member => ?_, fun id member leads => ?_,
    fun t filled => absurd rfl filled, fun t => ⟨rooted_nil, nofun, List.Pairwise.nil⟩,
    fun message rpc given => (silent message given).elim, fun id member => ?_⟩
  · rw [same id member]
    exact ⟨⟨rfl, rfl⟩, rfl, rfl, nofun, fun _ said => absurd said List.not_mem_nil⟩
  · rw [same id member]
    exact rooted_nil
  · rw [same id member] at leads
    cases leads
  · rw [same id member]
    exact fun _ said => absurd said List.not_mem_nil

theorem moves_whole (moves : Moves voters False heard v v')
    (unsaved : ∀ message, heard message → carriesSnapshot message = false) (whole : Whole v) :
    Whole v' := by
  induction moves with
  | refl => exact whole
  | tail _ move ih => exact Move.whole move unsaved ih

/-- A leader of such a cluster has an entry of its term at the end of its log. -/
theorem unsaved_endsWell {id : Int} {op : Op} (members : Members config voters)
    (unsaved : Unsaved voters cluster id op) (whole : Whole (views cluster id)) :
    EndsWell voters (cluster.run id).node op := by
  intro settled own elapsedMs _ _ leads
  have nodup := (sortedIds_shape (members.peers id unsaved.1.member)).2.1
  have ready : Goes voters False (fun _ => False) (cluster.run id).node
      (readied (cluster.run id).node elapsedMs) := readied_goes nodup _ elapsedMs
  exact (moves_whole (ready.moves settled own) nofun whole).ends leads

theorem remembered_of_reached (members : Members config voters)
    (reached : Cluster.Reaches (Unsaved voters) config voters cluster) :
    Remembered voters cluster.led (views cluster) (cluster.sent voters) := by
  induction reached with
  | start created none =>
    refine ⟨_, _, traced_start members created, ?_⟩
    rw [none]
    exact nofun
  | @step before id op _ unsaved ih =>
    have whole : ∀ p ∈ voters, Whole (views before p) := by
      obtain ⟨record, history, traced, -⟩ := ih
      exact traced.whole
    obtain ⟨record, history, traced, seen⟩ := (remembered_lasts members.positive _).step members
      unsaved.1 (fun saved => by rw [unsaved.2] at saved; cases saved)
      (unsaved_endsWell members unsaved (whole _ unsaved.1.member)) ih
    exact ⟨record, history, traced, led_after unsaved.1.member traced.sound seen⟩

/-- Log matching: logs with an entry of the same term at the same place are the same up to
there. -/
theorem logs_match (members : Members config voters)
    (reached : Cluster.Reaches (Unsaved voters) config voters cluster) {i j : Int}
    (isVoter : i ∈ voters) (isVoter' : j ∈ voters) {n : Nat}
    (held : n < (cluster.run i).node.log.entries.length)
    (held' : n < (cluster.run j).node.log.entries.length)
    (same : ((cluster.run i).node.log.entries[n]).term =
      ((cluster.run j).node.log.entries[n]).term) :
    (cluster.run i).node.log.entries.take (n + 1) =
      (cluster.run j).node.log.entries.take (n + 1) := by
  obtain ⟨record, history, traced, -⟩ := remembered_of_reached members reached
  exact (traced.rooted i isVoter).agree (traced.rooted j isVoter') held held' same

/-! Node 2 lacks the first entry of the leader, says so, and is sent it. -/

def replicationSteps : List (Int × Op) :=
  electionSteps ++ [(1, .advance 0), (1, .complete), (1, .advance 10),
    (2, .recvPeer ⟨1, 2, .appendEntries ⟨1, 1, 1, 0, 0, [], 1⟩⟩), (2, .advance 0), (2, .complete),
    (2, .advance 0), (1, .recvPeer ⟨2, 1, .appendEntriesResult ⟨1, 1, 0, 0, 0, 0, false⟩⟩),
    (1, .advance 10), (1, .advance 10),
    (2, .recvPeer ⟨1, 2, .appendEntries ⟨1, 0, 0, 0, 0, [noopEntry 1], 1⟩⟩)]

/-- Node 1 leads the term it was elected in, and both logs have the entry it began with. -/
def Replicated (cluster : State) : Prop :=
  (1, 1) ∈ cluster.led ∧ (cluster.run 1).node.state = .leader ∧
    (cluster.run 1).node.currentTerm = 1 ∧
      (cluster.run 1).node.log.entries.map Entry.term = [1] ∧
        (cluster.run 2).node.log.entries.map Entry.term = [1]

instance (cluster : State) : Decidable (Replicated cluster) :=
  inferInstanceAs (Decidable (_ ∧ _ ∧ _ ∧ _ ∧ _))

theorem trio_replicates :
    ∃ cluster, Cluster.Reaches (Unsaved [1, 2, 3]) trio [1, 2, 3] cluster ∧ Replicated cluster := by
  have tested : ((created trio).through (Unsaved [1, 2, 3]) replicationSteps).any
      (fun final => decide (Replicated final)) = true := by decide +kernel
  obtain ⟨final, passed, replicated⟩ := (Option.any_eq_true _ _).mp tested
  exact ⟨final, (trio_starts _).through _ passed, of_decide_eq_true replicated⟩

theorem term_of_single {entries : List Entry} {term : Int} (single : entries.map Entry.term = [term]) :
    ∃ held : 0 < entries.length, (entries[0]).term = term := by
  match entries, single with
  | [entry], single => exact ⟨Nat.one_pos, by simpa using single⟩

theorem trio_logs_match :
    ∃ cluster, Cluster.Reaches (Unsaved [1, 2, 3]) trio [1, 2, 3] cluster ∧
      (cluster.run 1).node.log.entries.take 1 = (cluster.run 2).node.log.entries.take 1 := by
  obtain ⟨cluster, reached, replicated⟩ := trio_replicates
  obtain ⟨held, term⟩ := term_of_single replicated.2.2.2.1
  obtain ⟨held', term'⟩ := term_of_single replicated.2.2.2.2
  exact ⟨cluster, reached, logs_match trio_members reached (by decide) (by decide) held held'
    (term.trans term'.symm)⟩

/-- What any log has from the term of a leader, and all before it, the leader has. -/
theorem leader_holds_its_term (members : Members config voters)
    (reached : Cluster.Reaches (Unsaved voters) config voters cluster) {leader i : Int}
    (isVoter : leader ∈ voters) (isVoter' : i ∈ voters)
    (leads : (cluster.run leader).node.state = .leader) {n : Nat}
    (held : n < (cluster.run i).node.log.entries.length)
    (own : ((cluster.run i).node.log.entries[n]).term = (cluster.run leader).node.currentTerm) :
    (cluster.run i).node.log.entries.take (n + 1) <+: (cluster.run leader).node.log.entries := by
  obtain ⟨record, history, traced, -⟩ := remembered_of_reached members reached
  have whole : (cluster.run leader).node.log.entries =
      history (cluster.run leader).node.currentTerm := traced.leads leader isVoter leads
  have piece := traced.rooted i isVoter' n held
  rw [whole, ← own]
  exact piece

theorem trio_leader_holds :
    ∃ cluster, Cluster.Reaches (Unsaved [1, 2, 3]) trio [1, 2, 3] cluster ∧
      (cluster.run 2).node.log.entries.take 1 <+: (cluster.run 1).node.log.entries := by
  obtain ⟨cluster, reached, replicated⟩ := trio_replicates
  obtain ⟨held, term⟩ := term_of_single replicated.2.2.2.2
  exact ⟨cluster, reached, leader_holds_its_term trio_members reached (by decide) (by decide)
    replicated.2.1 held (term.trans replicated.2.2.1.symm)⟩

/-- The terms of a log never fall, and none is above the term of its node. -/
theorem terms_rise (members : Members config voters)
    (reached : Cluster.Reaches (Unsaved voters) config voters cluster) {i : Int}
    (isVoter : i ∈ voters) :
    (cluster.run i).node.log.entries.Pairwise (fun a b => a.term ≤ b.term) ∧
      ∀ entry ∈ (cluster.run i).node.log.entries,
        entry.term ≤ (cluster.run i).node.currentTerm := by
  obtain ⟨record, history, traced, -⟩ := remembered_of_reached members reached
  refine ⟨?_, (traced.sound.nodes i isVoter).settled.bounded.entries⟩
  exact (traced.rooted i isVoter).carry List.Pairwise.nil
    (fun front all => all.sublist front.sublist) (fun t => (traced.lines t).rising)

theorem trio_terms_rise :
    ∃ cluster, Cluster.Reaches (Unsaved [1, 2, 3]) trio [1, 2, 3] cluster ∧
      (cluster.run 2).node.log.entries.map Entry.term = [1] ∧
        ∀ entry ∈ (cluster.run 2).node.log.entries,
          entry.term ≤ (cluster.run 2).node.currentTerm := by
  obtain ⟨cluster, reached, replicated⟩ := trio_replicates
  exact ⟨cluster, reached, replicated.2.2.2.2,
    (terms_rise trio_members reached (by decide)).2⟩

/-- Without snapshots election safety needs nothing of the logs: the log of a leader always ends
with an entry of its term. -/
theorem one_leader_unsaved (members : Members config voters)
    (reached : Cluster.Reaches (Unsaved voters) config voters cluster) :
    (∀ i j term, (i, term) ∈ cluster.led → (j, term) ∈ cluster.led → i = j) ∧
      ∀ i ∈ voters, (cluster.run i).node.state = .leader →
        lastTerm (cluster.run i).node.log = (cluster.run i).node.currentTerm := by
  obtain ⟨record, history, traced, seen⟩ := remembered_of_reached members reached
  constructor
  · intro i j term first second
    exact traced.sound.won.unique (seen _ first) (seen _ second)
  · intro i isVoter leads
    have settled := (traced.sound.nodes i isVoter).settled
    exact Int.le_antisymm (settled.bounded.termAt settled.started _)
      ((traced.whole i isVoter).ends leads)

theorem trio_one_leader :
    ∃ cluster, Cluster.Reaches (Unsaved [1, 2, 3]) trio [1, 2, 3] cluster ∧
      (1, 1) ∈ cluster.led ∧ (∀ j, (j, 1) ∈ cluster.led → j = 1) ∧
        lastTerm (cluster.run 1).node.log = 1 := by
  obtain ⟨cluster, reached, replicated⟩ := trio_replicates
  have safe := one_leader_unsaved trio_members reached
  exact ⟨cluster, reached, replicated.1, fun j second => safe.1 j 1 1 second replicated.1,
    (safe.2 1 (by decide) replicated.2.1).trans replicated.2.2.1⟩

end Kynovo.Raft.Matching
