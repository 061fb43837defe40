import Kynovo.Lib.BinaryHeap
import Mathlib.Data.Prod.Lex

/-! The timers of an event loop. They are kept in an array as a binary heap, and each
knows its own place in it. A handle is an address; an access to memory that is not
allocated, or outside the array, is a fault. -/
namespace Kynovo.Event

/-- `misuse` is the caller's: it handed in a handle that is no longer valid. -/
inductive Fault where
  | freed
  | outside
  | misuse
deriving DecidableEq

structure Timer where
  fireAt : Nat
  period : Nat
  seq : Nat
  heapIndex : Int
  firing : Bool
  dead : Bool
deriving DecidableEq

/-- `now` is the monotonic clock in microseconds, `handles` how many timers were ever
allocated. Address 0 is the null pointer. No code reads `armed`, the number of times
a timer was put into the heap. -/
structure Loop where
  timers : Nat → Nat
  timerCount : Nat
  timerCap : Nat
  timerSeq : Nat
  memory : Nat → Option Timer
  handles : Nat
  now : Nat
  mailboxOpen : Bool
  armed : Nat

def u64Max : Nat := 0xffffffffffffffff
def u64 (n : Nat) : Nat := n % 0x10000000000000000

/-! ## Memory -/

def Loop.timer (loop : Loop) (p : Nat) : Except Fault Timer :=
  match loop.memory p with
  | some timer => .ok timer
  | none => .error .freed

def Loop.store (loop : Loop) (p : Nat) (timer : Timer) : Loop :=
  { loop with memory := fun q => if q = p then some timer else loop.memory q }

def Loop.free (loop : Loop) (p : Nat) : Loop :=
  { loop with memory := fun q => if q = p then none else loop.memory q }

def Loop.cell (loop : Loop) (i : Nat) : Except Fault Nat :=
  if i < loop.timerCap then .ok (loop.timers i) else .error .outside

def Loop.setCell (loop : Loop) (i p : Nat) : Except Fault Loop :=
  if i < loop.timerCap then
    .ok { loop with timers := fun j => if j = i then p else loop.timers j }
  else .error .outside

/-- `timers[i]->heap_index=i` -/
def Loop.place (loop : Loop) (i : Nat) : Except Fault Loop := do
  let p ← loop.cell i
  let timer ← loop.timer p
  pure (loop.store p { timer with heapIndex := i })

/-! ## The heap -/

def timerLess (loop : Loop) (a b : Nat) : Except Fault Bool := do
  let a ← loop.timer a
  let b ← loop.timer b
  pure (if a.fireAt ≠ b.fireAt then decide (a.fireAt < b.fireAt) else decide (a.seq < b.seq))

def timerSwap (loop : Loop) (a b : Nat) : Except Fault Loop := do
  let timer ← loop.cell a
  let other ← loop.cell b
  let loop ← loop.setCell a other
  let loop ← loop.setCell b timer
  let loop ← loop.place a
  loop.place b

/-- The index falls in each round, so it bounds the rounds. -/
def timerUp : Nat → Loop → Nat → Except Fault Loop
  | 0, loop, _ => pure loop
  | fuel + 1, loop, idx => do
    if idx = 0 then pure loop
    else
      let parent := (idx - 1) / 2
      let here ← loop.cell idx
      let above ← loop.cell parent
      if ← timerLess loop here above then
        let loop ← timerSwap loop idx parent
        timerUp fuel loop parent
      else pure loop

/-- The earlier of a cell and a child of it, where there is a child. -/
def timerBest (loop : Loop) (child best : Nat) : Except Fault Nat := do
  if child < loop.timerCount then
    let here ← loop.cell child
    let least ← loop.cell best
    if ← timerLess loop here least then pure child else pure best
  else pure best

/-- The index grows in each round and stays below the count. -/
def timerDown : Nat → Loop → Nat → Except Fault Loop
  | 0, loop, _ => pure loop
  | fuel + 1, loop, idx => do
    let best ← timerBest loop (idx * 2 + 1) idx
    let best ← timerBest loop (idx * 2 + 2) best
    if best = idx then pure loop
    else
      let loop ← timerSwap loop idx best
      timerDown fuel loop best

/-- `room` is whether memory for a larger array is given. -/
def timerGrow (loop : Loop) (room : Bool) : Option Loop :=
  if room then
    some { loop with timerCap := if loop.timerCap ≠ 0 then loop.timerCap * 2 else 16 }
  else none

/-- `none`: the array is full and cannot grow. -/
def timerLink (loop : Loop) (p : Nat) (room : Bool) : Except Fault (Option Loop) :=
  let grown := if loop.timerCount = loop.timerCap then timerGrow loop room else some loop
  match grown with
  | none => pure none
  | some loop => do
    let idx := loop.timerCount
    let timer ← loop.timer p
    let loop := { loop with
      timerCount := loop.timerCount + 1
      timerSeq := u64 (loop.timerSeq + 1)
      armed := loop.armed + 1 }.store p { timer with
        seq := loop.timerSeq
        heapIndex := idx }
    let loop ← loop.setCell idx p
    let loop ← timerUp idx loop idx
    pure (some loop)

/-- The last timer takes the place of one that leaves, and moves to where it belongs. -/
def timerRefill (loop : Loop) (idx last : Nat) : Except Fault Loop := do
  let moved ← loop.cell last
  let loop ← loop.setCell idx moved
  let loop ← loop.place idx
  if 0 < idx then
    let here ← loop.cell idx
    let above ← loop.cell ((idx - 1) / 2)
    if ← timerLess loop here above then timerUp idx loop idx
    else timerDown loop.timerCount loop idx
  else timerDown loop.timerCount loop idx

def timerUnlink (loop : Loop) (p : Nat) : Except Fault Loop := do
  let timer ← loop.timer p
  if timer.heapIndex < 0 then pure loop
  else
    let idx := timer.heapIndex.toNat
    let loop := loop.store p { timer with heapIndex := -1 }
    if loop.timerCount = 0 then pure loop
    else
      let last := loop.timerCount - 1
      let loop := { loop with timerCount := last }
      let loop ← if idx ≠ last then timerRefill loop idx last else pure loop
      loop.setCell last 0

def timerClear : Nat → Loop → Except Fault Loop
  | 0, loop => pure loop
  | count + 1, loop => do
    let loop := { loop with timerCount := count }
    let p ← loop.cell count
    let loop ← loop.setCell count 0
    timerClear count (if p ≠ 0 then loop.free p else loop)

def timerDue (loop : Loop) : Except Fault Bool := do
  if loop.timerCount = 0 then pure false
  else
    let first ← loop.cell 0
    let timer ← loop.timer first
    pure (decide (timer.fireAt ≤ loop.now))

def timerRepeatAt (fireAt period now : Nat) : Nat :=
  if period = 0 then now
  else if now < fireAt then u64 (fireAt + period)
  else
    let steps := u64 ((now - fireAt) / period + 1)
    let limit := u64Max - fireAt
    if limit / period < steps then
      if u64Max - period < now then u64Max else u64 (now + period)
    else u64 (fireAt + u64 (steps * period))

/-! ## What the caller does -/

/-- `made` and `room` are whether memory is given for the timer and for a larger array. -/
inductive Call where
  | after (afterMs periodMs : UInt32) (made room : Bool)
  | stop (p : Nat)
  | requestStop
  | wait (us : Nat)
deriving DecidableEq

def cemonAfter (loop : Loop) (afterMs periodMs : UInt32) (made room : Bool) : Except Fault Loop :=
  if !loop.mailboxOpen || !made then pure loop
  else do
    let p := loop.handles + 1
    let fresh := { loop with handles := p }.store p
      ⟨u64 (loop.now + afterMs.toNat * 1000), periodMs.toNat * 1000, 0, -1, false, false⟩
    match ← timerLink fresh p room with
    | some loop => pure loop
    | none => pure (fresh.free p)

def cemonTimerStop (loop : Loop) (p : Nat) : Except Fault Loop :=
  match loop.memory p with
  | none => .error .misuse
  | some timer =>
    if timer.dead then pure loop
    else
      let loop := loop.store p { timer with dead := true }
      if timer.firing then pure loop
      else do
        let loop ← timerUnlink loop p
        pure (loop.free p)

def Loop.call (loop : Loop) : Call → Except Fault Loop
  | .after afterMs periodMs made room => cemonAfter loop afterMs periodMs made room
  | .stop p => cemonTimerStop loop p
  | .requestStop => pure { loop with mailboxOpen := false }
  | .wait us => pure { loop with now := loop.now + us }

def Loop.calls (loop : Loop) (calls : List Call) : Except Fault Loop := calls.foldlM Loop.call loop

/-- A timer that fired, with what it was ordered by. -/
structure Fire where
  timer : Nat
  fireAt : Nat
  period : Nat
  seq : Nat
  now : Nat
deriving DecidableEq

/-- What a callback does before it returns, and whether the array may grow after it. -/
structure Callback where
  calls : List Call
  room : Bool
deriving DecidableEq

/-- After a callback a timer is armed again, or given up. -/
def timerRearm (loop : Loop) (p : Nat) (room : Bool) : Except Fault Loop := do
  let timer ← loop.timer p
  let loop := loop.store p { timer with firing := false }
  if timer.dead || timer.period = 0 || !loop.mailboxOpen then pure (loop.free p)
  else
    let loop := loop.store p { timer with
      firing := false
      fireAt := timerRepeatAt timer.fireAt timer.period loop.now }
    pure ((← timerLink loop p room).getD loop)

def timerPhaseStep (loop : Loop) (callback : Callback) : Except Fault (Loop × List Fire) := do
  let p ← loop.cell 0
  let loop ← timerUnlink loop p
  let timer ← loop.timer p
  if timer.dead then pure (loop.free p, [])
  else
    let fire := ⟨p, timer.fireAt, timer.period, timer.seq, loop.now⟩
    let loop := loop.store p { timer with firing := true }
    let loop ← loop.calls callback.calls
    let loop ← timerRearm loop p callback.room
    pure (loop, [fire])

/-- The time that passes before the heap is looked at, whether posts or retries wait, and
the callback of the timer that is due. -/
structure Round where
  idle : Nat
  tailReady : Bool
  callback : Callback

/-- Also returns what is left of the budget. -/
def runTimerPhase (rounds : Nat → Round) : Nat → Loop → Except Fault (Loop × List Fire × Nat)
  | 0, loop => pure (loop, [], 0)
  | budget + 1, loop => do
    let round := rounds budget
    let loop := { loop with now := loop.now + round.idle }
    if ← timerDue loop then
      if budget = 0 && round.tailReady then pure (loop, [], 1)
      else
        let (loop, fired) ← timerPhaseStep loop round.callback
        let (loop, more, left) ← runTimerPhase rounds budget loop
        pure (loop, fired ++ more, left)
    else pure (loop, [], budget + 1)

/-! ## Runs -/

/-- A call from outside the callbacks, a timer phase, or the beginning of the stop. -/
inductive Op where
  | call (call : Call)
  | phase (budget : Nat) (rounds : Nat → Round)
  | beginStop

structure Run where
  loop : Loop
  fired : List Fire

def Run.step (run : Run) : Op → Except Fault Run
  | .call call => do
    let loop ← run.loop.call call
    pure { run with loop }
  | .phase budget rounds => do
    let (loop, fired, _) ← runTimerPhase rounds budget run.loop
    pure ⟨loop, run.fired ++ fired⟩
  | .beginStop => do
    let loop ← timerClear run.loop.timerCount { run.loop with mailboxOpen := false }
    pure { run with loop }

/-- A loop as it is created: no array, no timers. -/
def Loop.fresh (now : Nat) : Loop := ⟨fun _ => 0, 0, 0, 0, fun _ => none, 0, now, true, 0⟩

def Run.start (now : Nat) : Run := ⟨.fresh now, []⟩

/-- One run goes on from another, by steps of a kind. -/
inductive Follows (may : Op → Prop) (run : Run) : Run → Prop where
  | refl : Follows may run run
  | step {between after : Run} {op : Op} (before : Follows may run between) (allowed : may op)
      (stepped : between.step op = .ok after) : Follows may run after

end Kynovo.Event
