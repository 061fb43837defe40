import Mathlib.Data.List.Basic

/-! The mailbox of an event loop. Any thread may post a task; the thread that polls, the
owner, runs them. Who posts while the owner may sleep writes to a descriptor that ends the
sleep, unless such a write is already due. A step of the system is one section under the
loop's lock, one read of the queue without it, or one call on the descriptor. -/
namespace Kynovo.Event.Mailbox

def postqLimit : Nat := 4096

/-- How much one dispatch does: a timer, a task or a deferred delivery costs one. -/
def dispatchBudget : Nat := 256

/-- The bits of a loop. Its owner is bound before it is running. -/
structure Control where
  running : Bool
  stopRequested : Bool
  stopping : Bool
  closing : Bool
deriving DecidableEq

inductive Gate where
  | isOpen
  | stopGated
  | closed
deriving DecidableEq

def mailboxFromPostBits (control : Control) : Gate :=
  if control.closing then .closed
  else if control.stopRequested || control.stopping then .stopGated else .isOpen

/-- Whether a post is accepted, of the owner from a callback or of anyone. -/
def mailboxAccepts (control : Control) (owner inCallback : Bool) : Bool :=
  match mailboxFromPostBits control with
  | .isOpen => true
  | .stopGated => owner && inCallback
  | .closed => false

inductive Transition where
  | stopRequest
  | beginStop
  | runEnter
  | runExit
deriving DecidableEq

def Control.lifecycleIndex (control : Control) : Nat :=
  (if control.running then 4 else 0) + (if control.stopRequested then 2 else 0) +
    (if control.stopping then 1 else 0)

def Control.withLifecycle (control : Control) (index : Nat) : Control :=
  { control with
    running := index / 4 % 2 = 1, stopRequested := index / 2 % 2 = 1, stopping := index % 2 = 1 }

/-- The next index for each index; `none` where the table has -1. -/
def nextLifecycle : Transition → List (Option Nat)
  | .stopRequest => [some 2, some 3, some 2, some 3, some 6, some 7, some 6, some 7]
  | .beginStop => [some 1, some 1, some 3, some 3, some 5, some 5, some 7, some 7]
  | .runEnter => [some 4, some 5, some 6, some 7, none, none, none, none]
  | .runExit => [some 0, some 1, some 2, some 3, some 0, some 1, some 2, some 3]

def transitionPostBits (control : Control) (action : Transition) : Control :=
  match (nextLifecycle action)[control.lifecycleIndex]? with
  | some (some next) => control.withLifecycle next
  | _ => control

/-- `readable` is the state of the wake descriptor. -/
structure Loop where
  posts : List Nat
  postCount : Nat
  wakePending : Bool
  ingressCount : Nat
  control : Control
  readable : Bool
deriving DecidableEq

def Loop.stopPending (loop : Loop) : Bool := mailboxFromPostBits loop.control ≠ .isOpen

def postWakeNeeded (owner active inCallback : Bool) : Bool := active && (!owner || !inCallback)

def stopRequestWakeNeeded (owner active : Bool) : Bool := active && !owner

/-- The flag says whether the caller has to write. -/
def wakePrepare (loop : Loop) (needed : Bool) : Loop × Bool :=
  if needed && !loop.wakePending then ({ loop with wakePending := true }, true) else (loop, false)

def ingressEnter (loop : Loop) (owner inCallback : Bool) : Option Loop :=
  if mailboxAccepts loop.control owner inCallback then
    some { loop with ingressCount := loop.ingressCount + 1 }
  else none

def ingressLeave (loop : Loop) : Loop := { loop with ingressCount := loop.ingressCount - 1 }

/-- Whether the task was taken up, and whether the caller has to write. Who has not
leaves at once. -/
def postPush (loop : Loop) (task : Nat) (owner inCallback : Bool) : Loop × Bool × Bool :=
  if postqLimit ≤ loop.postCount || !mailboxAccepts loop.control owner inCallback then
    (ingressLeave loop, false, false)
  else
    let queued := { loop with posts := loop.posts ++ [task], postCount := loop.postCount + 1 }
    let (loop, wake) := wakePrepare queued (postWakeNeeded owner loop.control.running inCallback)
    (if wake then loop else ingressLeave loop, true, wake)

/-- A write that would block leaves the descriptor readable as well. -/
def wakeEmit (loop : Loop) (fails : Bool) : Loop :=
  if fails then { loop with wakePending := false } else { loop with readable := true }

def requestStop (loop : Loop) (owner : Bool) : Loop × Bool :=
  wakePrepare { loop with control := transitionPostBits loop.control .stopRequest }
    (stopRequestWakeNeeded owner loop.control.running)

/-- All tasks are taken along; what is left of them goes back in front. -/
def postTake (loop : Loop) (consumeWake : Bool) : List Nat × Loop :=
  (loop.posts, { loop with
    posts := []
    wakePending := if consumeWake then false else loop.wakePending })

def postFinish (loop : Loop) (done : Nat) (rest : List Nat) : Loop :=
  { loop with
    postCount := if done ≤ loop.postCount then loop.postCount - done else 0
    posts := rest ++ loop.posts }

/-! ## The threads -/

/-- Where the owner dispatches: before it polls, for a wake, or as the last thing. -/
inductive Phase where
  | before
  | wake
  | last
deriving DecidableEq

/-- Where the owner is. `saw` is whether it knows that it has to stop, `sleeps` whether
it found no reason to return at once, `woken` whether the wake is among the events. -/
inductive Place where
  | outside
  | dispatch (consumeWake : Bool) (phase : Phase)
  | posted (rest : List Nat) (phase : Phase)
  | checking
  | stopping
  | timing (saw : Bool)
  | polling (sleeps saw : Bool)
  | events (woken : Bool)
  | drained
  | gone
deriving DecidableEq

/-- What the owner's own post is up to. -/
inductive Call where
  | idle
  | entered (inCallback : Bool)
  | writing
  | leaving
deriving DecidableEq

/-- Of the other threads, how many have entered, have to write, have to leave, and have to
write for a stop. `accepted` and `ran` are the tasks taken up and begun so far, and `budget`
is what the dispatch may still do. -/
structure Run where
  loop : Loop
  place : Place
  call : Call
  entered : Nat
  writing : Nat
  leaving : Nat
  stopWriting : Nat
  accepted : List Nat
  ran : List Nat
  budget : Nat
deriving DecidableEq

inductive Op where
  | enter
  | push (task : Nat)
  | write (fails : Bool)
  | leave
  | stop
  | stopWrite (fails : Bool)
  | ownEnter (inCallback : Bool)
  | ownPush (task : Nat)
  | ownWrite (fails : Bool)
  | ownLeave
  | ownStop
  | poll
  | spend
  | take
  | finish
  | dispatched
  | check
  | settle (socketsGone : Bool)
  | timeout (idle : Bool)
  | epollWait (woken : Bool)
  | epollFails
  | readWake
  | clearWake
  | eventsDone
  | close
deriving DecidableEq

/-- Code of the user runs here, in a callback. -/
def Place.callsBack : Place → Bool
  | .outside | .dispatch _ _ | .posted _ _ | .stopping | .events _ => true
  | _ => false

/-- A post outside a callback comes between two polls. -/
def Place.mayPost (place : Place) (inCallback : Bool) : Bool :=
  if inCallback then place.callsBack else place = .outside

/-- After a post of another thread. -/
def Run.pushed (run : Run) (task : Nat) : Run :=
  let (loop, accepted, wake) := postPush run.loop task false false
  { run with
    loop
    entered := run.entered - 1
    writing := if wake then run.writing + 1 else run.writing
    accepted := if accepted then run.accepted ++ [task] else run.accepted }

def Run.ownPushed (run : Run) (task : Nat) (inCallback : Bool) : Run :=
  let (loop, accepted, wake) := postPush run.loop task true inCallback
  { run with
    loop
    call := if wake then .writing else .idle
    accepted := if accepted then run.accepted ++ [task] else run.accepted }

def Run.stopped (run : Run) : Run :=
  let (loop, wake) := requestStop run.loop false
  { run with loop, stopWriting := if wake then run.stopWriting + 1 else run.stopWriting }

/-- The owner leaves a dispatch: no task waits, or it has done enough at once. -/
def Run.dispatched (run : Run) : Phase → Run
  | .before => { run with place := .checking }
  | .wake => { run with place := .events false }
  | .last =>
    { run with
      place := .outside
      loop := { run.loop with control := transitionPostBits run.loop.control .runExit } }

/-- A thread other than the owner. -/
def Run.other (run : Run) : Op → Option Run
  | .enter =>
    if run.place = .gone then none
    else
      match ingressEnter run.loop false false with
      | some loop => some { run with loop, entered := run.entered + 1 }
      | none => some run
  | .push task => if 0 < run.entered then some (run.pushed task) else none
  | .write fails =>
    if 0 < run.writing then
      some { run with
        loop := wakeEmit run.loop fails, writing := run.writing - 1, leaving := run.leaving + 1 }
    else none
  | .leave =>
    if 0 < run.leaving then
      some { run with loop := ingressLeave run.loop, leaving := run.leaving - 1 }
    else none
  | .stop => if run.place = .gone then none else some run.stopped
  | .stopWrite fails =>
    if 0 < run.stopWriting then
      some { run with loop := wakeEmit run.loop fails, stopWriting := run.stopWriting - 1 }
    else none
  | _ => none

/-- The owner posts, or asks for a stop, from a callback or between two polls. -/
def Run.own (run : Run) : Op → Option Run
  | .ownEnter inCallback =>
    if run.call = .idle && run.place.mayPost inCallback then
      match ingressEnter run.loop true inCallback with
      | some loop => some { run with loop, call := .entered inCallback }
      | none => some run
    else none
  | .ownPush task =>
    match run.call with
    | .entered inCallback => some (run.ownPushed task inCallback)
    | _ => none
  | .ownWrite fails =>
    if run.call = .writing then some { run with loop := wakeEmit run.loop fails, call := .leaving }
    else none
  | .ownLeave =>
    if run.call = .leaving then some { run with loop := ingressLeave run.loop, call := .idle }
    else none
  | .ownStop =>
    if run.call = .idle && run.place.callsBack then
      some { run with loop := (requestStop run.loop true).1 }
    else none
  | _ => none

/-- The owner polls. -/
def Run.owner (run : Run) (op : Op) : Option Run :=
  if run.call ≠ .idle then none
  else
    match op, run.place with
    | .poll, .outside =>
      some { run with
        place := .dispatch false .before
        loop := { run.loop with control := transitionPostBits run.loop.control .runEnter }
        budget := dispatchBudget }
    | .spend, .dispatch _ _ =>
      if 0 < run.budget then some { run with budget := run.budget - 1 } else none
    | .take, .dispatch consumeWake phase =>
      match postTake run.loop consumeWake with
      | (task :: rest, loop) =>
        if 0 < run.budget then
          some { run with
            loop, place := .posted rest phase, ran := run.ran ++ [task], budget := run.budget - 1 }
        else none
      | ([], _) => none
    | .finish, .posted rest phase =>
      some { run with loop := postFinish run.loop 1 rest, place := .dispatch false phase }
    | .dispatched, .dispatch _ phase =>
      if run.budget = 0 || run.loop.posts.isEmpty then some (run.dispatched phase) else none
    | .check, .checking =>
      if run.loop.stopPending then
        some { run with
          place := .stopping
          loop := { run.loop with control := transitionPostBits run.loop.control .beginStop } }
      else some { run with place := .timing false }
    | .settle socketsGone, .stopping =>
      if socketsGone && run.loop.postCount = 0 then
        some { run with place := .dispatch false .last, budget := dispatchBudget }
      else some { run with place := .timing true }
    | .timeout idle, .timing saw =>
      some { run with place := .polling (idle && run.loop.posts.isEmpty) saw }
    | .epollWait woken, .polling _ _ =>
      if woken && !run.loop.readable then none else some { run with place := .events woken }
    | .epollFails, .polling _ _ =>
      some { run with place := .dispatch false .last, budget := dispatchBudget }
    | .readWake, .events true =>
      some { run with place := .drained, loop := { run.loop with readable := false } }
    -- the descriptor is read until it has nothing, so a write in between is read as well
    | .readWake, .drained =>
      if run.loop.readable then some { run with loop := { run.loop with readable := false } } else none
    | .clearWake, .drained =>
      some { run with
        place := .dispatch true .wake
        loop := { run.loop with wakePending := false }
        budget := dispatchBudget }
    | .eventsDone, .events false => some { run with place := .outside }
    | .close, .outside =>
      if run.loop.control.stopRequested then
        let loop := { run.loop with control := { run.loop.control with closing := true } }
        some { run with loop, place := if loop.ingressCount = 0 then .gone else .outside }
      else none
    | _, _ => none

def Run.step (run : Run) (op : Op) : Option Run :=
  (run.other op).orElse (fun _ => (run.own op).orElse (fun _ => run.owner op))

def Run.start : Run :=
  ⟨⟨[], 0, false, 0, ⟨false, false, false, false⟩, false⟩, .outside, .idle, 0, 0, 0, 0, [], [], 0⟩

def Run.through (run : Run) (ops : List Op) : Option Run := ops.foldlM Run.step run

end Kynovo.Event.Mailbox
