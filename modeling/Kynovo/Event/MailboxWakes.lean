import Kynovo.Event.MailboxOrder
import Mathlib.Logic.Relation

/-! The owner of a loop does not sleep through a post or a stop, and all tasks that were
taken up can run without another post. -/
namespace Kynovo.Event.Mailbox

variable {run next : Run} {loop loop' : Loop} {op : Op}

/-! ## Wakes -/

/-- The owner's next wait ends at once, or a thread is about to write. -/
def Run.wakeDue (run : Run) : Prop := run.loop.readable = true ∨ 0 < run.writing + run.stopWriting

/-- The owner has checked for a stop, found none, and will not check before it waits. -/
def Place.unaware : Place → Bool
  | .timing false | .polling _ false => true
  | _ => false

def Place.inPoll : Place → Bool
  | .outside | .gone => false
  | _ => true

/-- The owner may wait. -/
def Place.waits : Place → Bool
  | .timing _ | .polling _ _ => true
  | _ => false

structure Wakes (run : Run) : Prop where
  pending : run.loop.wakePending = true → run.wakeDue ∨ run.call = .writing ∨ run.place = .drained
  posts : ∀ saw, run.place = .polling true saw → run.loop.posts ≠ [] → run.wakeDue
  stops : run.place.unaware = true → run.loop.stopPending = true → run.wakeDue
  active : run.place.inPoll = true → run.loop.control.running = true
  outward : run.call = .writing ∨ run.call = .entered false → run.place = .outside

def Op.fails : Op → Bool
  | .write fails | .stopWrite fails | .ownWrite fails => fails
  | _ => false

theorem wakes_start : Wakes .start where
  pending := fun h => by cases h
  posts := fun _ asleep => by cases asleep
  stops := fun h => by cases h
  active := fun h => by cases h
  outward := fun posting => posting.elim (fun h => by cases h) (fun h => by cases h)

theorem waits_of_unaware {place : Place} (unaware : place.unaware = true) : place.waits = true := by
  cases place with
  | timing saw => rfl
  | polling sleeps saw => rfl
  | _ => cases unaware

theorem not_waits_of_callsBack {place : Place} (calls : place.callsBack = true) :
    place.waits = false ∧ place ≠ .drained := by
  cases place with
  | timing saw => cases calls
  | polling sleeps saw => cases calls
  | drained => cases calls
  | _ => exact ⟨rfl, (fun h => by cases h)⟩

/-- While the owner waits, a pending wake is due. -/
theorem Wakes.waiting (wakes : Wakes run) (waits : run.place.waits = true)
    (pending : run.loop.wakePending = true) : run.wakeDue := by
  rcases wakes.pending pending with due | writing | drained
  · exact due
  · rw [wakes.outward (.inl writing)] at waits
    cases waits
  · rw [drained] at waits
    cases waits

theorem Wakes.running (wakes : Wakes run) (waits : run.place.waits = true) :
    run.loop.control.running = true := by
  refine wakes.active ?_
  cases place : run.place with
  | timing saw => rfl
  | polling sleeps saw => rfl
  | _ =>
    rw [place] at waits
    cases waits

/-- A thread changes the counts, or writes. -/
theorem Wakes.counts (wakes : Wakes run) {count : Nat} {entered writing leaving : Nat}
    {accepted : List Nat} (more : run.writing ≤ writing) :
    Wakes { run with
      loop := { run.loop with ingressCount := count }, entered, writing, leaving, accepted } := by
  have keeps : run.wakeDue → Run.wakeDue { run with
      loop := { run.loop with ingressCount := count }, entered, writing, leaving, accepted } := by
    rintro (readable | busy)
    · exact .inl readable
    · right
      show 0 < writing + run.stopWriting
      omega
  exact {
    pending := fun pending => (wakes.pending pending).imp_left keeps
    posts := fun saw asleep work => keeps (wakes.posts saw asleep work)
    stops := fun unaware stop => keeps (wakes.stops unaware stop)
    active := wakes.active
    outward := wakes.outward }

theorem wakes_of_due (due : run.wakeDue) (active : run.place.inPoll = true →
    run.loop.control.running = true)
    (outward : run.call = .writing ∨ run.call = .entered false → run.place = .outside) : Wakes run where
  pending := fun _ => .inl due
  posts := fun _ _ _ => due
  stops := fun _ _ => due
  active := active
  outward := outward

theorem Wakes.pushed (wakes : Wakes run) (task : Nat) : Wakes (run.pushed task) := by
  unfold Run.pushed
  rcases postPush_cases run.loop task false false with same | ⟨-, -, ⟨same, needed⟩ | ⟨same, -⟩⟩
  · rw [same]
    exact wakes.counts (Nat.le_refl _)
  · rw [same]
    exact {
      pending := wakes.pending
      posts := fun saw asleep _ => by
        have waits : run.place.waits = true := by
          have here : run.place = .polling true saw := asleep
          rw [here]
          rfl
        refine wakes.waiting waits (needed ?_)
        simp only [postWakeNeeded, wakes.running waits, Bool.not_false, Bool.true_or, Bool.and_true]
      stops := wakes.stops
      active := wakes.active
      outward := wakes.outward }
  · rw [same]
    exact wakes_of_due (.inr (by show 0 < run.writing + 1 + run.stopWriting; omega)) wakes.active
      wakes.outward

theorem Wakes.stopped (wakes : Wakes run) : Wakes run.stopped := by
  unfold Run.stopped requestStop
  rw [transition_stopRequest]
  rcases wakePrepare_cases { run.loop with control := { run.loop.control with stopRequested := true } }
    (stopRequestWakeNeeded false run.loop.control.running) with ⟨made, -⟩ | ⟨made, needed⟩
  · rw [made]
    exact wakes_of_due (.inr (by show 0 < run.writing + (run.stopWriting + 1); omega)) wakes.active
      wakes.outward
  · rw [made]
    exact {
      pending := wakes.pending
      posts := wakes.posts
      stops := fun unaware _ => by
        have waits := waits_of_unaware unaware
        refine wakes.waiting waits (needed ?_)
        have running := wakes.running waits
        simp only [stopRequestWakeNeeded, running, Bool.not_false, Bool.and_true]
      active := wakes.active
      outward := wakes.outward }

theorem Wakes.other (wakes : Wakes run) (works : op.fails = false)
    (made : run.other op = some next) : Wakes next := by
  cases op with
  | enter =>
    simp only [Run.other] at made
    split at made
    · cases made
    split at made
    · rename_i loop entered
      cases made
      rw [ingressEnter_eq entered]
      exact wakes.counts (Nat.le_refl _)
    · cases made
      exact wakes
  | push task =>
    simp only [Run.other] at made
    split at made
    · cases made
      exact wakes.pushed task
    · cases made
  | write fails =>
    simp only [Op.fails] at works
    subst works
    simp only [Run.other] at made
    split at made
    · cases made
      exact wakes_of_due (.inl rfl) wakes.active wakes.outward
    · cases made
  | leave =>
    simp only [Run.other] at made
    split at made
    · cases made
      exact wakes.counts (Nat.le_refl _)
    · cases made
  | stop =>
    simp only [Run.other] at made
    split at made
    · cases made
    · cases made
      exact wakes.stopped
  | stopWrite fails =>
    simp only [Op.fails] at works
    subst works
    simp only [Run.other] at made
    split at made
    · cases made
      exact wakes_of_due (.inl rfl) wakes.active wakes.outward
    · cases made
  | _ => cases made

/-- While user code runs nothing waits, so only a pending wake is to be accounted for. -/
theorem wakes_of_calls (calls : run.place.callsBack = true)
    (pending : run.loop.wakePending = true → run.wakeDue ∨ run.call = .writing)
    (active : run.place.inPoll = true → run.loop.control.running = true)
    (outward : run.call = .writing ∨ run.call = .entered false → run.place = .outside) : Wakes run where
  pending := fun held => (pending held).elim .inl (fun writing => .inr (.inl writing))
  posts := fun saw asleep => by
    rw [asleep] at calls
    cases calls
  stops := fun unaware => by
    have waits := waits_of_unaware unaware
    rw [(not_waits_of_callsBack calls).1] at waits
    cases waits
  active := active
  outward := outward

/-- A pending wake is due while user code runs, unless the owner itself has to write. -/
theorem Wakes.calling (wakes : Wakes run) (calls : run.place.callsBack = true)
    (pending : run.loop.wakePending = true) : run.wakeDue ∨ run.call = .writing := by
  rcases wakes.pending pending with due | writing | drained
  · exact .inl due
  · exact .inr writing
  · exact absurd drained (not_waits_of_callsBack calls).2

theorem Wakes.ownPushed {inCallback : Bool} (wakes : Wakes run) (task : Nat)
    (calls : run.place.callsBack = true) (entered : run.call = .entered inCallback) :
    Wakes (run.ownPushed task inCallback) := by
  have due : run.loop.wakePending = true → run.wakeDue := fun pending =>
    (wakes.calling calls pending).resolve_right (by rw [entered]; exact fun h => by cases h)
  unfold Run.ownPushed
  rcases postPush_cases run.loop task true inCallback with same | ⟨-, -, ⟨same, -⟩ | ⟨same, needed⟩⟩
  · rw [same]
    exact wakes_of_calls calls (fun pending => .inl (due pending)) wakes.active
      (fun posting => posting.elim (fun h => by cases h) (fun h => by cases h))
  · rw [same]
    exact wakes_of_calls calls (fun pending => .inl (due pending)) wakes.active
      (fun posting => posting.elim (fun h => by cases h) (fun h => by cases h))
  · rw [same]
    refine wakes_of_calls calls (fun _ => .inr rfl) wakes.active (fun _ => wakes.outward (.inr ?_))
    rw [entered]
    simp only [postWakeNeeded, Bool.not_true, Bool.false_or, Bool.and_eq_true, Bool.not_eq_true']
      at needed
    rw [needed.2]

theorem Wakes.own (wakes : Wakes run) (kept : Kept run) (works : op.fails = false)
    (made : run.own op = some next) : Wakes next := by
  cases op with
  | ownEnter inCallback =>
    simp only [Run.own] at made
    split at made
    · rename_i allowed
      simp only [Bool.and_eq_true, decide_eq_true_eq] at allowed
      have calls := callsBack_of_mayPost allowed.2
      split at made
      · rename_i loop entered
        cases made
        rw [ingressEnter_eq entered]
        refine wakes_of_calls calls (fun pending => .inl ?_) wakes.active (fun posting => ?_)
        · exact (wakes.calling calls pending).resolve_right (by rw [allowed.1]; exact fun h => by cases h)
        · rcases posting with writing | outside
          · cases writing
          · cases outside
            simpa [Place.mayPost] using allowed.2
      · cases made
        exact wakes
    · cases made
  | ownPush task =>
    simp only [Run.own] at made
    split at made
    · rename_i inCallback entered
      cases made
      exact wakes.ownPushed task (kept.calls (by rw [entered]; exact fun h => by cases h)) entered
    · cases made
  | ownWrite fails =>
    simp only [Op.fails] at works
    subst works
    simp only [Run.own] at made
    split at made
    · cases made
      exact wakes_of_due (.inl rfl) wakes.active (fun posting => posting.elim (fun h => by cases h) (fun h => by cases h))
    · cases made
  | ownLeave =>
    simp only [Run.own] at made
    split at made
    · rename_i leaving
      cases made
      have calls := kept.calls (by rw [leaving]; exact fun h => by cases h)
      refine wakes_of_calls calls (fun pending => .inl ?_) wakes.active
        (fun posting => posting.elim (fun h => by cases h) (fun h => by cases h))
      exact (wakes.calling calls pending).resolve_right (by rw [leaving]; exact fun h => by cases h)
    · cases made
  | ownStop =>
    simp only [Run.own] at made
    split at made
    · rename_i allowed
      cases made
      simp only [Bool.and_eq_true, decide_eq_true_eq] at allowed
      have silent : requestStop run.loop true =
          ({ run.loop with control := { run.loop.control with stopRequested := true } }, false) := by
        unfold requestStop
        rw [transition_stopRequest]
        simp [wakePrepare, stopRequestWakeNeeded]
      rw [silent]
      exact wakes_of_calls allowed.2 (fun pending => wakes.calling allowed.2 pending) wakes.active
        wakes.outward
    · cases made
  | _ => cases made

theorem not_posting {call : Call} (idle : call = .idle) :
    ¬ (call = .writing ∨ call = .entered false) := by
  subst idle
  exact fun posting => posting.elim (fun h => by cases h) (fun h => by cases h)

/-- The owner goes to a place where it does not wait. -/
theorem Wakes.moves (wakes : Wakes run) (idle : run.call = .idle) {place : Place} {loop' : Loop}
    {ran : List Nat} {budget : Nat} (dry : run.place ≠ .drained)
    (pending : loop'.wakePending = true → run.loop.wakePending = true)
    (readable : loop'.readable = run.loop.readable) (awake : place.waits = false)
    (active : place.inPoll = true → loop'.control.running = true) :
    Wakes { run with loop := loop', place, ran, budget } where
  pending := fun held => by
    rcases wakes.pending (pending held) with due | writing | drained
    · exact .inl (due.imp_left readable.trans)
    · rw [idle] at writing
      cases writing
    · exact absurd drained dry
  posts := fun saw asleep => by
    have here : place = .polling true saw := asleep
    rw [here] at awake
    cases awake
  stops := fun unaware => by
    have waits : place.waits = true := waits_of_unaware unaware
    rw [awake] at waits
    cases waits
  active := active
  outward := fun posting => absurd posting (not_posting idle)

theorem Wakes.timeout (wakes : Wakes run) (call : run.call = .idle) {saw : Bool} (idle : Bool)
    (place : run.place = .timing saw) :
    Wakes { run with place := .polling (idle && run.loop.posts.isEmpty) saw } where
  pending := fun held => .inl (wakes.waiting (by rw [place]; rfl) held)
  posts := fun saw' asleep work => by
    have sleeps : (idle && run.loop.posts.isEmpty) = true := by
      have here : Place.polling (idle && run.loop.posts.isEmpty) saw = .polling true saw' := asleep
      exact (Place.polling.inj here).1
    simp only [Bool.and_eq_true, List.isEmpty_iff] at sleeps
    exact absurd sleeps.2 work
  stops := fun unaware stop => by
    refine wakes.stops ?_ stop
    rw [place]
    cases saw with
    | true => cases unaware
    | false => rfl
  active := fun _ => wakes.running (by rw [place]; rfl)
  outward := fun posting => absurd posting (not_posting call)

theorem Wakes.check (wakes : Wakes run) (call : run.call = .idle) (place : run.place = .checking)
    (open_ : run.loop.stopPending = false) : Wakes { run with place := .timing false } where
  pending := fun held => by
    rcases wakes.pending held with due | writing | drained
    · exact .inl due
    · exact .inr (.inl writing)
    · rw [place] at drained
      cases drained
  posts := fun _ asleep => by cases asleep
  stops := fun _ stop => by
    have stop' : run.loop.stopPending = true := stop
    rw [open_] at stop'
    cases stop'
  active := fun _ => wakes.active (by rw [place]; rfl)
  outward := fun posting => absurd posting (not_posting call)

theorem Wakes.owner (wakes : Wakes run) (made : run.owner op = some next) : Wakes next := by
  unfold Run.owner at made
  split at made
  · cases made
  rename_i idle
  have idle : run.call = .idle := Decidable.not_not.mp idle
  split at made
  · -- poll
    rename_i place
    cases made
    rw [transition_runEnter]
    exact wakes.moves idle (by rw [place]; exact fun h => by cases h) id rfl rfl (fun _ => rfl)
  · -- spend
    rename_i consumeWake phase place
    split at made
    · cases made
      exact wakes.moves idle (by rw [place]; exact fun h => by cases h) id rfl (by rw [place]; rfl)
        wakes.active
    · cases made
  · -- take
    rename_i consumeWake phase place
    split at made
    · rename_i task rest loop taken
      split at made <;> cases made
      have after : (postTake run.loop consumeWake).2 = loop := congrArg Prod.snd taken
      rw [← after]
      refine wakes.moves idle (by rw [place]; exact fun h => by cases h) ?_ rfl rfl
        (fun _ => wakes.active (by rw [place]; rfl))
      intro pending
      have held : (if consumeWake then false else run.loop.wakePending) = true := pending
      split at held
      · cases held
      · exact held
    · cases made
  · -- finish
    rename_i rest phase place
    cases made
    exact wakes.moves idle (by rw [place]; exact fun h => by cases h) id rfl rfl
      (fun _ => wakes.active (by rw [place]; rfl))
  · -- dispatched
    rename_i consumeWake phase place
    split at made <;> cases made
    have dry : run.place ≠ .drained := by
      rw [place]
      exact fun h => by cases h
    have running := wakes.active (by rw [place]; rfl)
    cases phase with
    | before => exact wakes.moves idle dry id rfl rfl (fun _ => running)
    | wake => exact wakes.moves idle dry id rfl rfl (fun _ => running)
    | last => exact wakes.moves idle dry id rfl rfl (fun h => by cases h)
  · -- check
    rename_i place
    split at made
    · cases made
      rw [transition_beginStop]
      exact wakes.moves idle (by rw [place]; exact fun h => by cases h) id rfl rfl
        (fun _ => wakes.active (by rw [place]; rfl))
    · rename_i open_
      cases made
      exact wakes.check idle place (Bool.not_eq_true _ ▸ open_)
  · -- settle
    rename_i socketsGone place
    have dry : run.place ≠ .drained := by
      rw [place]
      exact fun h => by cases h
    have running := wakes.active (by rw [place]; rfl)
    split at made
    · cases made
      exact wakes.moves idle dry id rfl rfl (fun _ => running)
    · cases made
      exact {
        pending := fun held => by
          rcases wakes.pending held with due | writing | drained
          · exact .inl due
          · exact .inr (.inl writing)
          · exact absurd drained dry
        posts := fun _ asleep => by cases asleep
        stops := fun h => by cases h
        active := fun _ => running
        outward := fun posting => absurd posting (not_posting idle) }
  · -- timeout
    rename_i idle' saw place
    cases made
    exact wakes.timeout idle idle' place
  · -- epollWait
    rename_i woken sleeps saw place
    split at made
    · cases made
    · cases made
      exact wakes.moves idle (by rw [place]; exact fun h => by cases h) id rfl rfl
        (fun _ => wakes.active (by rw [place]; rfl))
  · -- epollFails
    rename_i sleeps saw place
    cases made
    exact wakes.moves idle (by rw [place]; exact fun h => by cases h) id rfl rfl
      (fun _ => wakes.active (by rw [place]; rfl))
  · -- readWake: what is pending is cleared next
    rename_i place
    cases made
    exact {
      pending := fun _ => .inr (.inr rfl)
      posts := fun _ asleep => by cases asleep
      stops := fun h => by cases h
      active := fun _ => wakes.active (by rw [place]; rfl)
      outward := fun posting => absurd posting (not_posting idle) }
  · -- readWake again
    rename_i place
    split at made <;> cases made
    exact {
      pending := fun _ => .inr (.inr place)
      posts := fun saw asleep => by
        have there : run.place = .polling true saw := asleep
        rw [place] at there
        cases there
      stops := fun unaware => by
        have there : run.place.unaware = true := unaware
        rw [place] at there
        cases there
      active := wakes.active
      outward := fun posting => absurd posting (not_posting idle) }
  · -- clearWake
    rename_i place
    cases made
    exact {
      pending := fun h => by cases h
      posts := fun _ asleep => by cases asleep
      stops := fun h => by cases h
      active := fun _ => wakes.active (by rw [place]; rfl)
      outward := fun posting => absurd posting (not_posting idle) }
  · -- eventsDone
    rename_i place
    cases made
    exact wakes.moves idle (by rw [place]; exact fun h => by cases h) id rfl rfl (fun h => by cases h)
  · -- close
    rename_i place
    split at made
    · cases made
      refine wakes.moves idle (by rw [place]; exact fun h => by cases h) id rfl ?_ ?_
      · split
        · rfl
        · rfl
      · split
        · exact fun h => by cases h
        · exact fun h => by cases h
    · cases made
  · cases made

theorem Wakes.step (wakes : Wakes run) (kept : Kept run) (works : op.fails = false)
    (made : run.step op = some next) : Wakes next := by
  rcases step_cases made with other | own | owner
  · exact wakes.other works other
  · exact wakes.own kept works own
  · exact wakes.owner owner

theorem Wakes.through (wakes : Wakes run) (kept : Kept run) {ops : List Op}
    (works : ∀ op ∈ ops, op.fails = false) (made : run.through ops = some next) : Wakes next := by
  induction ops generalizing run with
  | nil =>
    cases made
    exact wakes
  | cons op rest ih =>
    obtain ⟨middle, first, more⟩ := Option.bind_eq_some_iff.mp made
    exact ih (wakes.step kept (works op List.mem_cons_self) first) (kept.step first)
      (fun op held => works op (List.mem_cons_of_mem _ held)) more

/-- The owner never sleeps through a post, nor through a stop that came after it had
checked: the wake descriptor is readable or a thread is about to write to it. -/
theorem no_wake_is_lost {ops : List Op} (made : Run.start.through ops = some run)
    (works : ∀ op ∈ ops, op.fails = false) {saw : Bool} (asleep : run.place = .polling true saw)
    (work : run.loop.posts ≠ [] ∨ saw = false ∧ run.loop.stopPending = true) :
    run.loop.readable = true ∨ 0 < run.writing + run.stopWriting := by
  have wakes := wakes_start.through kept_start works made
  rcases work with posts | ⟨rfl, stop⟩
  · exact wakes.posts saw asleep posts
  · exact wakes.stops (by rw [asleep]; rfl) stop

theorem posting_wakes : asleepRun.loop.readable = true ∨ 0 < asleepRun.writing + asleepRun.stopWriting :=
  no_wake_is_lost (show Run.start.through posting = some asleepRun by decide) (by decide) rfl
    (.inl (by decide))

/-! ## What waits can run -/

def Place.asleep : Place → Bool
  | .polling true _ => true
  | _ => false

/-- The owner goes on, or a thread does the write that it is about to do. Only the wake
descriptor ends a sleep. -/
def Run.goesOn (run : Run) : Op → Bool
  | .write fails | .stopWrite fails | .ownWrite fails => !fails
  | .epollWait woken => woken || !run.place.asleep
  | .ownPush _ | .ownLeave | .poll | .take | .finish | .dispatched | .check | .settle _ | .timeout _
  | .readWake | .clearWake | .eventsDone => true
  | _ => false

def Moves (run next : Run) : Prop := ∃ op, run.goesOn op = true ∧ run.step op = some next

def Proceeds : Run → Run → Prop := Relation.ReflTransGen Moves

/-- What is known of every run in which writes work. -/
structure Sound (run : Run) : Prop where
  kept : Kept run
  wakes : Wakes run

theorem fails_of_goesOn (goes : run.goesOn op = true) : op.fails = false := by
  cases op with
  | write fails => simpa [Run.goesOn, Op.fails] using goes
  | stopWrite fails => simpa [Run.goesOn, Op.fails] using goes
  | ownWrite fails => simpa [Run.goesOn, Op.fails] using goes
  | _ => rfl

theorem Sound.moves (sound : Sound run) (moves : Moves run next) : Sound next := by
  obtain ⟨op, goes, made⟩ := moves
  exact ⟨sound.kept.step made, sound.wakes.step sound.kept (fails_of_goesOn goes) made⟩

theorem Sound.proceeds (sound : Sound run) (proceeds : Proceeds run next) : Sound next := by
  induction proceeds with
  | refl => exact sound
  | tail _ moves ih => exact ih.moves moves

/-- The tasks taken up stay taken up. -/
theorem accepted_step (made : run.step op = some next) : run.accepted <+: next.accepted := by
  have grows : ∀ (accepted : Bool) (task : Nat),
      run.accepted <+: if accepted then run.accepted ++ [task] else run.accepted := by
    intro accepted task
    cases accepted with
    | true => exact List.prefix_append _ _
    | false => exact List.prefix_rfl
  rcases step_cases made with other | own | owner
  · cases op with
    | push task =>
      simp only [Run.other] at other
      split at other
      · cases other
        exact grows _ task
      · cases other
    | stop =>
      simp only [Run.other] at other
      split at other <;> cases other
      exact List.prefix_rfl
    | enter =>
      simp only [Run.other] at other
      split at other
      · cases other
      · split at other <;> cases other <;> exact List.prefix_rfl
    | write fails | leave | stopWrite fails =>
      simp only [Run.other] at other
      split at other <;> cases other
      exact List.prefix_rfl
    | _ => cases other
  · cases op with
    | ownPush task =>
      simp only [Run.own] at own
      split at own
      · cases own
        exact grows _ task
      · cases own
    | ownEnter inCallback =>
      simp only [Run.own] at own
      split at own
      · split at own <;> cases own <;> exact List.prefix_rfl
      · cases own
    | ownWrite fails | ownLeave | ownStop =>
      simp only [Run.own] at own
      split at own <;> cases own
      exact List.prefix_rfl
    | _ => cases own
  · unfold Run.owner at owner
    split at owner
    · cases owner
    · split at owner
      all_goals try split at owner
      all_goals first | cases owner | (split at owner <;> cases owner)
      all_goals try exact List.prefix_rfl
      rename_i phase _ _
      cases phase <;> exact List.prefix_rfl

theorem accepted_proceeds (proceeds : Proceeds run next) : run.accepted <+: next.accepted := by
  induction proceeds with
  | refl => exact List.prefix_rfl
  | tail _ moves ih =>
    obtain ⟨op, -, made⟩ := moves
    exact ih.trans (accepted_step made)

/-- The owner is in a dispatch. -/
def Run.settled (run : Run) : Prop :=
  run.call = .idle ∧ ∃ consumeWake phase, run.place = .dispatch consumeWake phase

/-- The owner has come to a new dispatch, and these tasks wait. -/
def Run.fresh (posts : List Nat) (run : Run) : Prop :=
  run.settled ∧ run.budget = dispatchBudget ∧ run.loop.posts = posts

def Leads (run : Run) (goal : Run → Prop) : Prop := ∃ final, Proceeds run final ∧ goal final

theorem Leads.step {goal : Run → Prop} (moves : Moves run next) (rest : Leads next goal) :
    Leads run goal := by
  obtain ⟨final, proceeds, holds⟩ := rest
  exact ⟨final, .head moves proceeds, holds⟩

theorem Leads.here {goal : Run → Prop} (holds : goal run) : Leads run goal := ⟨run, .refl, holds⟩

theorem Leads.bind {goal goal' : Run → Prop} (first : Leads run goal)
    (rest : ∀ middle, goal middle → Leads middle goal') : Leads run goal' := by
  obtain ⟨middle, proceeds, holds⟩ := first
  obtain ⟨final, proceeds', holds'⟩ := rest middle holds
  exact ⟨final, proceeds.trans proceeds', holds'⟩

/-- The owner's step is about its place and its own call, which are known here. -/
theorem Run.placed (run : Run) (idle : run.call = .idle) {place : Place}
    (there : run.place = place) : { run with place := place, call := .idle } = run := by
  rw [← there, ← idle]

theorem leads_outside (idle : run.call = .idle) (place : run.place = .outside) :
    Leads run (Run.fresh run.loop.posts) := by
  have moves : Moves run { run with
      place := .dispatch false .before
      loop := { run.loop with control := transitionPostBits run.loop.control .runEnter }
      budget := dispatchBudget } :=
    ⟨.poll, rfl, by rw [← run.placed idle place]; rfl⟩
  exact .step moves (.here ⟨⟨idle, false, .before, rfl⟩, rfl, rfl⟩)

theorem leads_drained (idle : run.call = .idle) (place : run.place = .drained) :
    Leads run (Run.fresh run.loop.posts) := by
  have moves : Moves run { run with
      place := .dispatch true .wake
      loop := { run.loop with wakePending := false }
      budget := dispatchBudget } :=
    ⟨.clearWake, rfl, by rw [← run.placed idle place]; rfl⟩
  exact .step moves (.here ⟨⟨idle, true, .wake, rfl⟩, rfl, rfl⟩)

theorem leads_events (idle : run.call = .idle) {woken : Bool} (place : run.place = .events woken) :
    Leads run (Run.fresh run.loop.posts) := by
  cases woken with
  | true =>
    have moves : Moves run { run with
        place := .drained, loop := { run.loop with readable := false } } :=
      ⟨.readWake, rfl, by rw [← run.placed idle place]; rfl⟩
    exact .step moves (leads_drained idle rfl)
  | false =>
    have moves : Moves run { run with place := .outside } :=
      ⟨.eventsDone, rfl, by rw [← run.placed idle place]; rfl⟩
    exact .step moves (leads_outside idle rfl)

theorem leads_readable (idle : run.call = .idle) {sleeps saw : Bool}
    (place : run.place = .polling sleeps saw) (readable : run.loop.readable = true) :
    Leads run (Run.fresh run.loop.posts) := by
  have moves : Moves run { run with place := .events true } :=
    ⟨.epollWait true, rfl, by
      rw [← run.placed idle place]
      show (if (true && !run.loop.readable) = true then none else some _) = _
      rw [readable]
      rfl⟩
  exact .step moves (leads_events idle rfl)

/-- A sleep ends by the write that is due. -/
theorem leads_asleep (idle : run.call = .idle) {saw : Bool} (place : run.place = .polling true saw)
    (due : run.wakeDue) : Leads run (Run.fresh run.loop.posts) := by
  rcases due with readable | busy
  · exact leads_readable idle place readable
  by_cases writing : 0 < run.writing
  · have moves : Moves run { run with
        loop := wakeEmit run.loop false, writing := run.writing - 1, leaving := run.leaving + 1 } :=
      ⟨.write false, rfl, by simp [Run.step, Run.other, writing]⟩
    exact .step moves (leads_readable idle place rfl)
  · have stopWriting : 0 < run.stopWriting := by omega
    have moves : Moves run { run with
        loop := wakeEmit run.loop false, stopWriting := run.stopWriting - 1 } :=
      ⟨.stopWrite false, rfl, by simp [Run.step, Run.other, stopWriting]⟩
    exact .step moves (leads_readable idle place rfl)

theorem leads_awake (idle : run.call = .idle) {saw : Bool} (place : run.place = .polling false saw) :
    Leads run (Run.fresh run.loop.posts) := by
  have moves : Moves run { run with place := .events false } :=
    ⟨.epollWait false, by rw [← run.placed idle place]; rfl, by rw [← run.placed idle place]; rfl⟩
  exact .step moves (leads_events idle rfl)

theorem leads_timing (idle : run.call = .idle) {saw : Bool} (place : run.place = .timing saw) :
    Leads run (Run.fresh run.loop.posts) := by
  have moves : Moves run { run with place := .polling false saw } :=
    ⟨.timeout false, rfl, by rw [← run.placed idle place]; rfl⟩
  exact .step moves (leads_awake idle rfl)

theorem leads_stopping (idle : run.call = .idle) (place : run.place = .stopping) :
    Leads run (Run.fresh run.loop.posts) := by
  have moves : Moves run { run with place := .timing true } :=
    ⟨.settle false, rfl, by rw [← run.placed idle place]; rfl⟩
  exact .step moves (leads_timing idle rfl)

theorem leads_checking (idle : run.call = .idle) (place : run.place = .checking) :
    Leads run (Run.fresh run.loop.posts) := by
  cases stop : run.loop.stopPending with
  | true =>
    have moves : Moves run { run with
        place := .stopping
        loop := { run.loop with control := transitionPostBits run.loop.control .beginStop } } :=
      ⟨.check, rfl, by
        rw [← run.placed idle place]
        show (if run.loop.stopPending = true then some _ else some _) = _
        rw [if_pos stop]⟩
    exact .step moves (leads_stopping idle rfl)
  | false =>
    have moves : Moves run { run with place := .timing false } :=
      ⟨.check, rfl, by
        rw [← run.placed idle place]
        show (if run.loop.stopPending = true then some _ else some _) = _
        rw [if_neg (Bool.eq_false_iff.mp stop)]⟩
    exact .step moves (leads_timing idle rfl)

theorem moves_finish (idle : run.call = .idle) {rest : List Nat} {phase : Phase}
    (place : run.place = .posted rest phase) :
    Moves run { run with loop := postFinish run.loop 1 rest, place := .dispatch false phase } :=
  ⟨.finish, rfl, by rw [← run.placed idle place]; rfl⟩

/-- From wherever the owner is, it comes to a dispatch or nothing waits. -/
theorem Sound.leads (sound : Sound run) (idle : run.call = .idle) (there : run.place ≠ .gone) :
    Leads run (fun final => final.settled ∨ final.waiting = []) := by
  have weaken : Leads run (Run.fresh run.loop.posts) →
      Leads run (fun final => final.settled ∨ final.waiting = []) :=
    fun ⟨final, proceeds, fresh⟩ => ⟨final, proceeds, .inl fresh.1⟩
  cases place : run.place with
  | outside => exact weaken (leads_outside idle place)
  | dispatch consumeWake phase => exact .here (.inl ⟨idle, consumeWake, phase, place⟩)
  | posted rest phase =>
    exact .step (moves_finish idle place) (.here (.inl ⟨idle, false, phase, rfl⟩))
  | checking => exact weaken (leads_checking idle place)
  | stopping => exact weaken (leads_stopping idle place)
  | timing saw => exact weaken (leads_timing idle place)
  | polling sleeps saw =>
    cases sleeps with
    | false => exact weaken (leads_awake idle place)
    | true =>
      by_cases posts : run.loop.posts = []
      · refine .here (.inr ?_)
        unfold Run.waiting
        rw [place, posts]
        rfl
      · exact weaken (leads_asleep idle place (sound.wakes.posts saw place posts))
  | events woken => exact weaken (leads_events idle place)
  | drained => exact weaken (leads_drained idle place)
  | gone => exact absurd place there

/-- A dispatch that has spent its budget is left, and the next poll begins another. -/
theorem leads_again (settled : run.settled) (spent : run.budget = 0) :
    Leads run (Run.fresh run.loop.posts) := by
  obtain ⟨idle, consumeWake, phase, place⟩ := settled
  have leaves : Moves run (run.dispatched phase) :=
    ⟨.dispatched, rfl, by
      rw [← run.placed idle place]
      show (if (decide (run.budget = 0) || run.loop.posts.isEmpty) = true then some _ else none) = _
      rw [spent]
      rfl⟩
  cases phase with
  | before => exact .step leaves (leads_checking idle rfl)
  | wake => exact .step leaves (leads_events idle rfl)
  | last => exact .step leaves (leads_outside idle rfl)

/-- Within the budget the first task that waits is run. -/
theorem leads_taken {task : Nat} {rest : List Nat} (settled : run.settled) (left : 0 < run.budget)
    (same : run.loop.posts = task :: rest) :
    Leads run (fun final => final.settled ∧ final.loop.posts = rest) := by
  obtain ⟨idle, consumeWake, phase, place⟩ := settled
  let begun : Run := { run with
    loop := (postTake run.loop consumeWake).2
    place := .posted rest phase
    ran := run.ran ++ [task]
    budget := run.budget - 1 }
  have took : Moves run begun := by
    refine ⟨.take, rfl, ?_⟩
    simp [Run.step, Run.other, Run.own, Run.owner, idle, place, postTake, same, left, begun]
  have ended : Moves begun { begun with
      loop := postFinish begun.loop 1 rest, place := .dispatch false phase } :=
    moves_finish (show begun.call = .idle from idle) rfl
  exact .step took (.step ended (.here ⟨⟨idle, false, phase, rfl⟩, List.append_nil rest⟩))

/-- The tasks run one after the other, in as many dispatches as their number takes. -/
theorem leads_done (posts : List Nat) (run : Run) (settled : run.settled)
    (same : run.loop.posts = posts) : Leads run (fun final => final.waiting = []) := by
  induction posts generalizing run with
  | nil =>
    obtain ⟨-, consumeWake, phase, place⟩ := settled
    refine .here ?_
    unfold Run.waiting
    rw [place, same]
    rfl
  | cons task rest ih =>
    have ready : Leads run (fun middle =>
        middle.settled ∧ 0 < middle.budget ∧ middle.loop.posts = task :: rest) := by
      by_cases left : 0 < run.budget
      · exact .here ⟨settled, left, same⟩
      · obtain ⟨middle, proceeds, there, budget, posts⟩ := leads_again settled (by omega)
        refine ⟨middle, proceeds, there, ?_, posts.trans same⟩
        rw [budget]
        decide
    refine ready.bind fun middle ⟨there, left, posts⟩ => ?_
    exact (leads_taken there left posts).bind fun next ⟨there, posts⟩ => ih next there posts

/-- The owner's own post comes to its end. -/
theorem leads_idle (run : Run) :
    Leads run (fun final => final.call = .idle ∧ final.place = run.place) := by
  have leave : ∀ run : Run, run.call = .leaving →
      Leads run (fun final => final.call = .idle ∧ final.place = run.place) := by
    intro run leaving
    have moves : Moves run { run with loop := ingressLeave run.loop, call := .idle } :=
      ⟨.ownLeave, rfl, by simp [Run.step, Run.other, Run.own, leaving]⟩
    exact .step moves (.here ⟨rfl, rfl⟩)
  have write : ∀ run : Run, run.call = .writing →
      Leads run (fun final => final.call = .idle ∧ final.place = run.place) := by
    intro run writing
    have moves : Moves run { run with loop := wakeEmit run.loop false, call := .leaving } :=
      ⟨.ownWrite false, rfl, by simp [Run.step, Run.other, Run.own, writing]⟩
    exact .step moves (leave _ rfl)
  cases call : run.call with
  | idle => exact .here ⟨call, rfl⟩
  | leaving => exact leave run call
  | writing => exact write run call
  | entered inCallback =>
    have pushed : Moves run (run.ownPushed 0 inCallback) := by
      refine ⟨.ownPush 0, rfl, ?_⟩
      simp [Run.step, Run.other, Run.own, call]
    have place : (run.ownPushed 0 inCallback).place = run.place := rfl
    refine .step pushed ?_
    cases wake : (postPush run.loop 0 true inCallback).2.2 with
    | true =>
      refine write _ ?_
      show (if (postPush run.loop 0 true inCallback).2.2 then Call.writing else .idle) = _
      rw [wake]
      rfl
    | false =>
      refine .here ⟨?_, place⟩
      show (if (postPush run.loop 0 true inCallback).2.2 then Call.writing else .idle) = _
      rw [wake]
      rfl

/-- In every run in which writes work, and at every point of it until the loop is freed,
all tasks taken up so far run if the owner goes on and the writes that are due are done:
no thread has to post or to stop again, and no wait has to end by itself. -/
theorem tasks_taken_up_run {ops : List Op} (made : Run.start.through ops = some run)
    (works : ∀ op ∈ ops, op.fails = false) (there : run.place ≠ .gone) :
    ∃ final, Proceeds run final ∧ run.accepted <+: final.ran := by
  have sound : Sound run := ⟨kept_start.through made, wakes_start.through kept_start works made⟩
  obtain ⟨quiet, finished, idle, place⟩ := leads_idle run
  have soundQuiet := sound.proceeds finished
  obtain ⟨ready, reached, settled⟩ := soundQuiet.leads idle (by rw [place]; exact there)
  obtain ⟨final, ended, none⟩ : Leads ready (fun final => final.waiting = []) := by
    rcases settled with settled | none
    · exact leads_done _ ready settled rfl
    · exact .here none
  have all : Proceeds run final := (finished.trans reached).trans ended
  refine ⟨final, all, ?_⟩
  have order := (sound.proceeds all).kept.order
  rw [none, List.append_nil] at order
  rw [← order]
  exact accepted_proceeds all

theorem posting_runs : ∃ final, Proceeds asleepRun final ∧ [7] <+: final.ran :=
  tasks_taken_up_run (show Run.start.through posting = some asleepRun by decide) (by decide)
    (by decide)

end Kynovo.Event.Mailbox
