import Kynovo.Event.Mailbox

/-! Every task that was taken up runs once, in the order of the posts, and no thread that
posts is inside a loop that was freed. -/
namespace Kynovo.Event.Mailbox

variable {run next : Run} {loop loop' : Loop} {op : Op}

/-! ## The bits -/

@[simp]
theorem transition_stopRequest (control : Control) :
    transitionPostBits control .stopRequest = { control with stopRequested := true } := by
  rcases control with ⟨running, stop, stopping, closing⟩
  cases running <;> cases stop <;> cases stopping <;> rfl

@[simp]
theorem transition_beginStop (control : Control) :
    transitionPostBits control .beginStop = { control with stopping := true } := by
  rcases control with ⟨running, stop, stopping, closing⟩
  cases running <;> cases stop <;> cases stopping <;> rfl

@[simp]
theorem transition_runEnter (control : Control) :
    transitionPostBits control .runEnter = { control with running := true } := by
  rcases control with ⟨running, stop, stopping, closing⟩
  cases running <;> cases stop <;> cases stopping <;> rfl

@[simp]
theorem transition_runExit (control : Control) :
    transitionPostBits control .runExit = { control with running := false } := by
  rcases control with ⟨running, stop, stopping, closing⟩
  cases running <;> cases stop <;> cases stopping <;> rfl

theorem wakePrepare_cases (loop : Loop) (needed : Bool) :
    wakePrepare loop needed = ({ loop with wakePending := true }, true) ∧ needed = true ∨
      wakePrepare loop needed = (loop, false) ∧ (needed = true → loop.wakePending = true) := by
  unfold wakePrepare
  cases needed <;> cases loop.wakePending <;> simp

/-- A post is refused, or taken up without a write, or with one. -/
theorem postPush_cases (loop : Loop) (task : Nat) (owner inCallback : Bool) :
    postPush loop task owner inCallback = (ingressLeave loop, false, false) ∨
      loop.postCount < postqLimit ∧ mailboxAccepts loop.control owner inCallback = true ∧
        (postPush loop task owner inCallback =
            (ingressLeave { loop with
              posts := loop.posts ++ [task], postCount := loop.postCount + 1 }, true, false) ∧
            (postWakeNeeded owner loop.control.running inCallback = true →
              loop.wakePending = true) ∨
          postPush loop task owner inCallback =
            ({ loop with
              posts := loop.posts ++ [task], postCount := loop.postCount + 1, wakePending := true },
              true, true) ∧ postWakeNeeded owner loop.control.running inCallback = true) := by
  unfold postPush
  split
  · exact .inl rfl
  · rename_i room
    simp only [Bool.or_eq_true, decide_eq_true_eq, Bool.not_eq_true', not_or, Nat.not_le,
      Bool.not_eq_false] at room
    refine .inr ⟨room.1, room.2, ?_⟩
    rcases wakePrepare_cases { loop with
      posts := loop.posts ++ [task], postCount := loop.postCount + 1 }
      (postWakeNeeded owner loop.control.running inCallback) with ⟨made, needed⟩ | ⟨made, pending⟩
    · dsimp only
      rw [made]
      exact .inr ⟨rfl, needed⟩
    · dsimp only
      rw [made]
      exact .inl ⟨rfl, pending⟩

/-! ## What the owner holds -/

/-- The tasks taken along with the one that runs. -/
def Place.rest : Place → List Nat
  | .posted rest _ => rest
  | _ => []

def Place.held : Place → Nat
  | .posted rest _ => rest.length + 1
  | _ => 0

def Call.inside : Call → Nat
  | .idle => 0
  | _ => 1

/-- The tasks taken up that have not begun. -/
def Run.waiting (run : Run) : List Nat := run.place.rest ++ run.loop.posts

structure Kept (run : Run) : Prop where
  order : run.accepted = run.ran ++ run.waiting
  count : run.loop.postCount = run.place.held + run.loop.posts.length
  limit : run.loop.postCount ≤ postqLimit
  inside : run.loop.ingressCount = run.entered + run.writing + run.leaving + run.call.inside
  gone : run.place = .gone → run.loop.ingressCount = 0 ∧ run.loop.control.closing = true
  calls : run.call ≠ .idle → run.place.callsBack = true

theorem kept_start : Kept .start where
  order := rfl
  count := rfl
  limit := Nat.zero_le _
  inside := rfl
  gone := fun gone => by cases gone
  calls := fun busy => absurd rfl busy

/-- A post of either kind: what becomes of the tasks. -/
structure Posts (task : Nat) (loop loop' : Loop) (accepted wake : Bool) : Prop where
  posts : loop'.posts = if accepted then loop.posts ++ [task] else loop.posts
  count : loop'.postCount = if accepted then loop.postCount + 1 else loop.postCount
  room : accepted = true → loop.postCount < postqLimit
  inside : loop'.ingressCount = if wake then loop.ingressCount else loop.ingressCount - 1
  control : loop'.control = loop.control

theorem posts_postPush (loop : Loop) (task : Nat) (owner inCallback : Bool) :
    Posts task loop (postPush loop task owner inCallback).1
      (postPush loop task owner inCallback).2.1 (postPush loop task owner inCallback).2.2 := by
  rcases postPush_cases loop task owner inCallback with same | ⟨room, -, ⟨same, -⟩ | ⟨same, -⟩⟩
  · rw [same]
    exact ⟨rfl, rfl, (fun h => by cases h), rfl, rfl⟩
  · rw [same]
    exact ⟨rfl, rfl, fun _ => room, rfl, rfl⟩
  · rw [same]
    exact ⟨rfl, rfl, fun _ => room, rfl, rfl⟩

/-- The tasks of a run after a post. -/
theorem Kept.tasks {task : Nat} {loop' : Loop} {accepted wake : Bool} (kept : Kept run)
    (posts : Posts task run.loop loop' accepted wake) :
    (if accepted then run.accepted ++ [task] else run.accepted) =
        run.ran ++ (run.place.rest ++ loop'.posts) ∧
      loop'.postCount = run.place.held + loop'.posts.length ∧ loop'.postCount ≤ postqLimit := by
  have order := kept.order
  have count := kept.count
  have limit := kept.limit
  unfold Run.waiting at order
  rw [posts.posts, posts.count]
  cases accepted with
  | false => exact ⟨order, count, limit⟩
  | true =>
    refine ⟨?_, ?_, posts.room rfl⟩
    · simp only [if_true]
      rw [order, List.append_assoc, List.append_assoc]
    · simp only [if_true, List.length_append, List.length_singleton]
      omega


/-- No thread that posts is left in a loop that is freed. -/
theorem Kept.present (kept : Kept run) (busy : 0 < run.entered + run.writing + run.leaving) :
    run.place ≠ .gone := by
  intro freed
  have inside := kept.inside
  have none := (kept.gone freed).1
  omega

theorem Kept.pushed (kept : Kept run) (task : Nat) (busy : 0 < run.entered) :
    Kept (run.pushed task) := by
  have posts := posts_postPush run.loop task false false
  unfold Run.pushed
  generalize postPush run.loop task false false = result at posts
  obtain ⟨loop, accepted, wake⟩ := result
  have tasks := kept.tasks posts
  have inside := kept.inside
  have left := posts.inside
  exact {
    order := tasks.1
    count := tasks.2.1
    limit := tasks.2.2
    inside := by
      show loop.ingressCount = run.entered - 1 + (if wake then run.writing + 1 else run.writing) +
        run.leaving + run.call.inside
      dsimp only at left
      rw [left]
      cases wake <;> simp only [if_true, if_false, Bool.false_eq_true] <;> omega
    gone := fun freed => absurd freed (kept.present (by omega))
    calls := kept.calls }

theorem Kept.ownPushed {inCallback : Bool} (kept : Kept run) (task : Nat)
    (entered : run.call = .entered inCallback) : Kept (run.ownPushed task inCallback) := by
  have posts := posts_postPush run.loop task true inCallback
  unfold Run.ownPushed
  generalize postPush run.loop task true inCallback = result at posts
  obtain ⟨loop, accepted, wake⟩ := result
  have tasks := kept.tasks posts
  have inside := kept.inside
  have left := posts.inside
  have place := kept.calls (by rw [entered]; exact fun h => by cases h)
  exact {
    order := tasks.1
    count := tasks.2.1
    limit := tasks.2.2
    inside := by
      show loop.ingressCount = run.entered + run.writing + run.leaving +
        (if wake then Call.writing else Call.idle).inside
      dsimp only at left
      rw [entered] at inside
      rw [left]
      cases wake
      · simp only [if_false, Bool.false_eq_true]
        simp only [Call.inside] at *
        omega
      · simp only [if_true]
        simp only [Call.inside] at *
        omega
    gone := fun freed => by
      have freed' : run.place = .gone := freed
      rw [freed'] at place
      exact absurd place (by decide)
    calls := fun _ => place }

/-- What a section of the lock leaves as it is, but for the gate and the wake. -/
structure Same (loop loop' : Loop) : Prop where
  posts : loop'.posts = loop.posts
  count : loop'.postCount = loop.postCount
  inside : loop'.ingressCount = loop.ingressCount
  closing : loop.control.closing = true → loop'.control.closing = true

theorem Kept.same {loop' : Loop} (kept : Kept run) (stopWriting : Nat) (same : Same run.loop loop') :
    Kept { run with loop := loop', stopWriting } where
  order := by
    have order := kept.order
    unfold Run.waiting at order ⊢
    rw [same.posts]
    exact order
  count := by
    show loop'.postCount = run.place.held + loop'.posts.length
    rw [same.count, same.posts]
    exact kept.count
  limit := by
    show loop'.postCount ≤ postqLimit
    rw [same.count]
    exact kept.limit
  inside := same.inside.trans kept.inside
  gone := fun freed => ⟨same.inside.trans (kept.gone freed).1, same.closing (kept.gone freed).2⟩
  calls := kept.calls

theorem same_wakeEmit (loop : Loop) (fails : Bool) : Same loop (wakeEmit loop fails) := by
  unfold wakeEmit
  split
  · exact ⟨rfl, rfl, rfl, id⟩
  · exact ⟨rfl, rfl, rfl, id⟩

theorem same_requestStop (loop : Loop) (owner : Bool) : Same loop (requestStop loop owner).1 := by
  unfold requestStop
  rcases wakePrepare_cases { loop with control := transitionPostBits loop.control .stopRequest }
    (stopRequestWakeNeeded owner loop.control.running) with ⟨made, -⟩ | ⟨made, -⟩
  · rw [made, transition_stopRequest]
    exact ⟨rfl, rfl, rfl, id⟩
  · rw [made, transition_stopRequest]
    exact ⟨rfl, rfl, rfl, id⟩

theorem ingressEnter_eq {owner inCallback : Bool}
    (entered : ingressEnter loop owner inCallback = some loop') :
    loop' = { loop with ingressCount := loop.ingressCount + 1 } := by
  unfold ingressEnter at entered
  split at entered
  · cases entered
    rfl
  · cases entered

theorem Kept.other (kept : Kept run) (made : run.other op = some next) : Kept next := by
  cases op with
  | enter =>
    simp only [Run.other] at made
    split at made
    · cases made
    rename_i there
    split at made
    · rename_i loop entered
      cases made
      rw [ingressEnter_eq entered]
      exact {
        order := kept.order
        count := kept.count
        limit := kept.limit
        inside := by
          have inside := kept.inside
          show run.loop.ingressCount + 1 =
            run.entered + 1 + run.writing + run.leaving + run.call.inside
          omega
        gone := fun freed => absurd freed there
        calls := kept.calls }
    · cases made
      exact kept
  | push task =>
    simp only [Run.other] at made
    split at made
    · rename_i busy
      cases made
      exact kept.pushed task busy
    · cases made
  | write fails =>
    simp only [Run.other] at made
    split at made
    · rename_i busy
      cases made
      have written := kept.same run.stopWriting (same_wakeEmit run.loop fails)
      exact {
        order := written.order
        count := written.count
        limit := written.limit
        inside := by
          have inside := written.inside
          show (wakeEmit run.loop fails).ingressCount =
            run.entered + (run.writing - 1) + (run.leaving + 1) + run.call.inside
          dsimp only at inside
          omega
        gone := fun freed => absurd freed (kept.present (by omega))
        calls := kept.calls }
    · cases made
  | leave =>
    simp only [Run.other] at made
    split at made
    · rename_i busy
      cases made
      exact {
        order := kept.order
        count := kept.count
        limit := kept.limit
        inside := by
          have inside := kept.inside
          show run.loop.ingressCount - 1 =
            run.entered + run.writing + (run.leaving - 1) + run.call.inside
          omega
        gone := fun freed => absurd freed (kept.present (by omega))
        calls := kept.calls }
    · cases made
  | stop =>
    simp only [Run.other] at made
    split at made
    · cases made
    · cases made
      exact kept.same _ (same_requestStop run.loop false)
  | stopWrite fails =>
    simp only [Run.other] at made
    split at made
    · cases made
      exact kept.same _ (same_wakeEmit run.loop fails)
    · cases made
  | _ => cases made

theorem callsBack_of_mayPost {place : Place} {inCallback : Bool}
    (allowed : place.mayPost inCallback = true) : place.callsBack = true := by
  unfold Place.mayPost at allowed
  cases inCallback with
  | true => exact allowed
  | false =>
    have outside : place = .outside := by simpa using allowed
    rw [outside]
    rfl

theorem Kept.own (kept : Kept run) (made : run.own op = some next) : Kept next := by
  cases op with
  | ownEnter inCallback =>
    simp only [Run.own] at made
    split at made
    · rename_i allowed
      simp only [Bool.and_eq_true, decide_eq_true_eq] at allowed
      have place := callsBack_of_mayPost allowed.2
      split at made
      · rename_i loop entered
        cases made
        rw [ingressEnter_eq entered]
        exact {
          order := kept.order
          count := kept.count
          limit := kept.limit
          inside := by
            have inside := kept.inside
            rw [allowed.1] at inside
            show run.loop.ingressCount + 1 = run.entered + run.writing + run.leaving + 1
            simp only [Call.inside] at inside
            omega
          gone := fun freed => by
            have freed' : run.place = .gone := freed
            rw [freed'] at place
            exact absurd place (by decide)
          calls := fun _ => place }
      · cases made
        exact kept
    · cases made
  | ownPush task =>
    simp only [Run.own] at made
    split at made
    · rename_i inCallback entered
      cases made
      exact kept.ownPushed task entered
    · cases made
  | ownWrite fails =>
    simp only [Run.own] at made
    split at made
    · rename_i writing
      cases made
      have written := kept.same run.stopWriting (same_wakeEmit run.loop fails)
      have inside := written.inside
      exact {
        order := written.order
        count := written.count
        limit := written.limit
        inside := by
          rw [writing] at inside
          exact inside
        gone := written.gone
        calls := fun _ => kept.calls (by rw [writing]; exact fun h => by cases h) }
    · cases made
  | ownLeave =>
    simp only [Run.own] at made
    split at made
    · rename_i leaving
      cases made
      exact {
        order := kept.order
        count := kept.count
        limit := kept.limit
        inside := by
          have inside := kept.inside
          rw [leaving] at inside
          show run.loop.ingressCount - 1 = run.entered + run.writing + run.leaving + 0
          simp only [Call.inside] at inside
          omega
        gone := fun freed => by
          have place := kept.calls (by rw [leaving]; exact fun h => by cases h)
          have freed' : run.place = .gone := freed
          rw [freed'] at place
          exact absurd place (by decide)
        calls := fun busy => absurd rfl busy }
    · cases made
  | ownStop =>
    simp only [Run.own] at made
    split at made
    · cases made
      exact kept.same _ (same_requestStop run.loop true)
    · cases made
  | _ => cases made

/-- No task is in the owner's hands. -/
def Place.emptyHanded (place : Place) : Prop := place.rest = [] ∧ place.held = 0

theorem Kept.moves (kept : Kept run) (idle : run.call = .idle) {place : Place} {loop' : Loop}
    {budget : Nat} (same : Same run.loop loop') (had : run.place.emptyHanded)
    (has : place.emptyHanded) (there : place ≠ .gone) :
    Kept { run with loop := loop', place, budget } where
  order := by
    have order := kept.order
    unfold Run.waiting at order ⊢
    rw [had.1] at order
    show run.accepted = run.ran ++ (place.rest ++ loop'.posts)
    rw [has.1, same.posts]
    exact order
  count := by
    have count := kept.count
    rw [had.2] at count
    show loop'.postCount = place.held + loop'.posts.length
    rw [has.2, same.count, same.posts]
    exact count
  limit := by
    show loop'.postCount ≤ postqLimit
    rw [same.count]
    exact kept.limit
  inside := same.inside.trans kept.inside
  gone := fun freed => absurd freed there
  calls := fun busy => absurd idle busy

theorem Same.refl (loop : Loop) : Same loop loop := ⟨rfl, rfl, rfl, id⟩

theorem Kept.take (kept : Kept run) (idle : run.call = .idle) {consumeWake : Bool} {phase : Phase}
    (place : run.place = .dispatch consumeWake phase) {task : Nat} {rest : List Nat}
    (posts : run.loop.posts = task :: rest) {budget : Nat} :
    Kept { run with
      loop := (postTake run.loop consumeWake).2
      place := .posted rest phase
      ran := run.ran ++ [task]
      budget } where
  order := by
    have order := kept.order
    unfold Run.waiting at order
    rw [place, posts] at order
    show run.accepted = run.ran ++ [task] ++ (rest ++ [])
    rw [List.append_nil, List.append_assoc]
    exact order
  count := by
    have count := kept.count
    rw [place, posts, List.length_cons] at count
    show run.loop.postCount = rest.length + 1 + 0
    simp only [Place.held] at count
    omega
  limit := kept.limit
  inside := kept.inside
  gone := fun h => by cases h
  calls := fun busy => absurd idle busy

theorem Kept.finish (kept : Kept run) (idle : run.call = .idle) {rest : List Nat} {phase : Phase}
    (place : run.place = .posted rest phase) :
    Kept { run with loop := postFinish run.loop 1 rest, place := .dispatch false phase } where
  order := by
    have order := kept.order
    unfold Run.waiting at order
    rw [place] at order
    exact order
  count := by
    have count := kept.count
    rw [place] at count
    show (if 1 ≤ run.loop.postCount then run.loop.postCount - 1 else 0) =
      0 + (rest ++ run.loop.posts).length
    rw [List.length_append]
    simp only [Place.held] at count
    rw [if_pos (by omega)]
    omega
  limit := by
    show (if 1 ≤ run.loop.postCount then run.loop.postCount - 1 else 0) ≤ postqLimit
    have limit := kept.limit
    split <;> omega
  inside := kept.inside
  gone := fun h => by cases h
  calls := fun busy => absurd idle busy

theorem Kept.close (kept : Kept run) (idle : run.call = .idle) (place : run.place = .outside) :
    Kept { run with
      loop := { run.loop with control := { run.loop.control with closing := true } }
      place := if run.loop.ingressCount = 0 then .gone else .outside } := by
  by_cases left : run.loop.ingressCount = 0
  · rw [if_pos left]
    have order := kept.order
    have count := kept.count
    unfold Run.waiting at order
    rw [place] at order count
    exact {
      order := order
      count := count
      limit := kept.limit
      inside := kept.inside
      gone := fun _ => ⟨left, rfl⟩
      calls := fun busy => absurd idle busy }
  · rw [if_neg left]
    exact kept.moves idle ⟨rfl, rfl, rfl, fun _ => rfl⟩ (by rw [place]; exact ⟨rfl, rfl⟩)
      ⟨rfl, rfl⟩ (fun h => by cases h)

theorem Kept.owner (kept : Kept run) (made : run.owner op = some next) : Kept next := by
  unfold Run.owner at made
  split at made
  · cases made
  rename_i idle
  have idle : run.call = .idle := Decidable.not_not.mp idle
  split at made
  · -- poll
    rename_i place
    cases made
    rw [transition_runEnter]
    exact kept.moves idle ⟨rfl, rfl, rfl, id⟩ (by rw [place]; exact ⟨rfl, rfl⟩) ⟨rfl, rfl⟩ (fun h => by cases h)
  · -- spend
    rename_i consumeWake phase place
    split at made
    · cases made
      have hands : run.place.emptyHanded := by
        rw [place]
        exact ⟨rfl, rfl⟩
      exact kept.moves idle (Same.refl _) hands hands (by rw [place]; exact fun h => by cases h)
    · cases made
  · -- take
    rename_i consumeWake phase place
    split at made
    · rename_i task rest loop taken
      split at made <;> cases made
      have posts : run.loop.posts = task :: rest := congrArg Prod.fst taken
      have after : (postTake run.loop consumeWake).2 = loop := congrArg Prod.snd taken
      rw [← after]
      exact kept.take idle place posts
    · cases made
  · -- finish
    rename_i rest phase place
    cases made
    exact kept.finish idle place
  · -- dispatched
    rename_i consumeWake phase place
    split at made <;> cases made
    have had : run.place.emptyHanded := by
      rw [place]
      exact ⟨rfl, rfl⟩
    cases phase with
    | before => exact kept.moves idle (Same.refl _) had ⟨rfl, rfl⟩ (fun h => by cases h)
    | wake => exact kept.moves idle (Same.refl _) had ⟨rfl, rfl⟩ (fun h => by cases h)
    | last =>
      simp only [Run.dispatched, transition_runExit]
      exact kept.moves idle ⟨rfl, rfl, rfl, id⟩ had ⟨rfl, rfl⟩ (fun h => by cases h)
  · -- check
    rename_i place
    have had : run.place.emptyHanded := by
      rw [place]
      exact ⟨rfl, rfl⟩
    split at made
    · cases made
      rw [transition_beginStop]
      exact kept.moves idle ⟨rfl, rfl, rfl, id⟩ had ⟨rfl, rfl⟩ (fun h => by cases h)
    · cases made
      exact kept.moves idle (Same.refl _) had ⟨rfl, rfl⟩ (fun h => by cases h)
  · -- settle
    rename_i socketsGone place
    have had : run.place.emptyHanded := by
      rw [place]
      exact ⟨rfl, rfl⟩
    split at made
    · cases made
      exact kept.moves idle (Same.refl _) had ⟨rfl, rfl⟩ (fun h => by cases h)
    · cases made
      exact kept.moves idle (Same.refl _) had ⟨rfl, rfl⟩ (fun h => by cases h)
  · -- timeout
    rename_i idle' saw place
    cases made
    exact kept.moves idle (Same.refl _) (by rw [place]; exact ⟨rfl, rfl⟩) ⟨rfl, rfl⟩ (fun h => by cases h)
  · -- epollWait
    rename_i woken sleeps saw place
    split at made
    · cases made
    · cases made
      exact kept.moves idle (Same.refl _) (by rw [place]; exact ⟨rfl, rfl⟩) ⟨rfl, rfl⟩ (fun h => by cases h)
  · -- epollFails
    rename_i sleeps saw place
    cases made
    exact kept.moves idle (Same.refl _) (by rw [place]; exact ⟨rfl, rfl⟩) ⟨rfl, rfl⟩ (fun h => by cases h)
  · -- readWake
    rename_i place
    cases made
    exact kept.moves idle ⟨rfl, rfl, rfl, id⟩ (by rw [place]; exact ⟨rfl, rfl⟩) ⟨rfl, rfl⟩ (fun h => by cases h)
  · -- readWake again
    rename_i place
    split at made <;> cases made
    have had : run.place.emptyHanded := by
      rw [place]
      exact ⟨rfl, rfl⟩
    exact kept.moves idle ⟨rfl, rfl, rfl, id⟩ had had (by rw [place]; exact fun h => by cases h)
  · -- clearWake
    rename_i place
    cases made
    exact kept.moves idle ⟨rfl, rfl, rfl, id⟩ (by rw [place]; exact ⟨rfl, rfl⟩) ⟨rfl, rfl⟩ (fun h => by cases h)
  · -- eventsDone
    rename_i place
    cases made
    exact kept.moves idle (Same.refl _) (by rw [place]; exact ⟨rfl, rfl⟩) ⟨rfl, rfl⟩ (fun h => by cases h)
  · -- close
    rename_i place
    split at made
    · cases made
      exact kept.close idle place
    · cases made
  · cases made

/-- A step is one of another thread, of the owner's own post, or of its polling. -/
theorem step_cases (made : run.step op = some next) :
    run.other op = some next ∨ run.own op = some next ∨ run.owner op = some next := by
  unfold Run.step at made
  cases other : run.other op with
  | some result =>
    rw [other] at made
    exact .inl made
  | none =>
    rw [other] at made
    cases own : run.own op with
    | some result =>
      rw [own] at made
      exact .inr (.inl made)
    | none =>
      rw [own] at made
      exact .inr (.inr made)

theorem Kept.step (kept : Kept run) (made : run.step op = some next) : Kept next := by
  rcases step_cases made with other | own | owner
  · exact kept.other other
  · exact kept.own own
  · exact kept.owner owner

theorem Kept.through (kept : Kept run) {ops : List Op} (made : run.through ops = some next) :
    Kept next := by
  induction ops generalizing run with
  | nil =>
    cases made
    exact kept
  | cons op rest ih =>
    obtain ⟨middle, first, more⟩ := Option.bind_eq_some_iff.mp made
    exact ih (kept.step first) more

/-! ## Every run -/

/-- Every task that was taken up has begun or still waits, in the order of the posts, and
no more wait than the queue may hold. -/
theorem posts_run_in_order {ops : List Op} (made : Run.start.through ops = some run) :
    run.accepted = run.ran ++ run.waiting ∧ run.waiting.length ≤ postqLimit := by
  have kept := kept_start.through made
  refine ⟨kept.order, ?_⟩
  have count := kept.count
  have limit := kept.limit
  unfold Run.waiting
  rw [List.length_append]
  cases place : run.place with
  | posted rest phase =>
    rw [place] at count
    simp only [Place.held] at count
    show rest.length + _ ≤ _
    omega
  | _ =>
    rw [place] at count
    simp only [Place.held] at count
    show 0 + _ ≤ _
    omega

/-- The owner sleeps, and another thread has posted a task. -/
def posting : List Op := [.poll, .dispatched, .check, .timeout true, .enter, .push 7]

def asleepRun : Run :=
  ⟨⟨[7], 1, true, 1, ⟨true, false, false, false⟩, false⟩, .polling true false, .idle, 0, 1, 0, 0,
    [7], [], 256⟩

/-- A second task follows; the first one runs and posts a third, behind the one put back. -/
def mixing : List Op :=
  posting ++ [.enter, .push 8, .write false, .leave, .epollWait true, .readWake, .clearWake, .take,
    .ownEnter true, .ownPush 9, .finish]

def mixedRun : Run :=
  ⟨⟨[8, 9], 2, false, 0, ⟨true, false, false, false⟩, false⟩, .dispatch false .wake, .idle, 0, 0, 0, 0,
    [7, 8, 9], [7], 255⟩

theorem posting_in_order :
    [7, 8, 9] = [7] ++ mixedRun.waiting ∧ mixedRun.waiting.length ≤ postqLimit :=
  posts_run_in_order (show Run.start.through mixing = some mixedRun by decide)

/-- A loop is freed when every thread that posts has left it. -/
theorem freed_when_left {ops : List Op} (made : Run.start.through ops = some run)
    (freed : run.place = .gone) :
    run.entered = 0 ∧ run.writing = 0 ∧ run.leaving = 0 ∧ run.call = .idle := by
  have kept := kept_start.through made
  have inside := kept.inside
  have none := (kept.gone freed).1
  have idle : run.call = .idle := by
    by_contra busy
    have calls := kept.calls busy
    rw [freed] at calls
    cases calls
  rw [idle] at inside
  simp only [Call.inside] at inside
  exact ⟨by omega, by omega, by omega, idle⟩

/-- The task runs, and the loop is freed. -/
def serving : List Op :=
  posting ++ [.write false, .leave, .epollWait true, .readWake, .clearWake, .take, .finish, .dispatched,
    .eventsDone, .ownStop, .close]

def freedRun : Run :=
  ⟨⟨[], 0, false, 0, ⟨true, true, false, true⟩, false⟩, .gone, .idle, 0, 0, 0, 0, [7], [7], 255⟩

theorem serving_left : freedRun.entered = 0 ∧ freedRun.writing = 0 ∧ freedRun.leaving = 0 ∧
    freedRun.call = .idle :=
  freed_when_left (show Run.start.through serving = some freedRun by decide) rfl

end Kynovo.Event.Mailbox
