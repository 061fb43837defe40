import Kynovo.Event.TimerMoves
import Mathlib.Tactic.Ring
import Mathlib.Tactic.Linarith

/-! What the timers of a loop promise over whole runs: the order they fire in, what they
are armed for again, and what never happens to them. -/
namespace Kynovo.Event
open Kynovo.Lib.BinaryHeap
open Kynovo.Lib.Outcome

variable {run run' : Run}

/-! ## The next time of a periodic timer -/

/-- The longest time a 32-bit count of milliseconds names, in microseconds. -/
def longest : Nat := 2 ^ 32 * 1000

/-- A periodic timer keeps its grid: it is armed for the first point of it after now. -/
theorem timerRepeatAt_grid {fireAt period now : Nat} (due : fireAt ≤ now) (periodic : 0 < period)
    (short : period ≤ longest) (early : now < 2 ^ 63) :
    timerRepeatAt fireAt period now = fireAt + ((now - fireAt) / period + 1) * period ∧
      now < timerRepeatAt fireAt period now ∧ timerRepeatAt fireAt period now ≤ now + period := by
  have bound : longest < 2 ^ 63 := by decide
  have parts := Nat.div_add_mod (now - fireAt) period
  have rest := Nat.mod_lt (now - fireAt) periodic
  have whole : ((now - fireAt) / period + 1) * period =
      period * ((now - fireAt) / period) + period := by ring
  have few : (now - fireAt) / period ≤ now - fireAt := Nat.div_le_self _ _
  have steps : u64 ((now - fireAt) / period + 1) = (now - fireAt) / period + 1 :=
    Nat.mod_eq_of_lt (by omega)
  have reach : ((now - fireAt) / period + 1) * period ≤ u64Max - fireAt := by
    rw [whole]
    unfold u64Max
    omega
  have fits : ¬ (u64Max - fireAt) / period < (now - fireAt) / period + 1 :=
    not_lt.mpr ((Nat.le_div_iff_mul_le periodic).mpr reach)
  have product : u64 (((now - fireAt) / period + 1) * period) =
      ((now - fireAt) / period + 1) * period := by
    refine Nat.mod_eq_of_lt ?_
    unfold u64Max at reach
    omega
  have sum : u64 (fireAt + ((now - fireAt) / period + 1) * period) =
      fireAt + ((now - fireAt) / period + 1) * period := by
    refine Nat.mod_eq_of_lt ?_
    unfold u64Max at reach
    omega
  have next : timerRepeatAt fireAt period now =
      fireAt + ((now - fireAt) / period + 1) * period := by
    unfold timerRepeatAt
    rw [if_neg periodic.ne', if_neg (not_lt.mpr due)]
    simp only [steps, if_neg fits, product, sum]
  refine ⟨next, ?_, ?_⟩
  · rw [next, whole]
    omega
  · rw [next, whole]
    omega

/-! ## What holds along a run -/

def Fire.key (fire : Fire) : ℕ ×ₗ ℕ := toLex (fire.fireAt, fire.seq)

/-- The clock and the count of armings are far from their ends. -/
structure Within (run : Run) : Prop where
  now : run.loop.now < 2 ^ 63
  armed : run.loop.armed < 2 ^ 64

/-- A later time on the grid of a periodic timer. -/
structure OnGrid (fireAt period fireAt' period' : Nat) : Prop where
  kept : period' = period
  periodic : 0 < period
  later : ∃ k, 0 < k ∧ fireAt' = fireAt + k * period

theorem OnGrid.trans {a b c period period' period'' : Nat} (first : OnGrid a period b period')
    (second : OnGrid b period' c period'') : OnGrid a period c period'' := by
  obtain ⟨k, some, reach⟩ := first.later
  obtain ⟨j, _, reach'⟩ := second.later
  refine ⟨second.kept.trans first.kept, first.periodic, k + j, by omega, ?_⟩
  rw [reach', reach, first.kept]
  ring

/-- Alarms that are set are ahead of everything that has fired. -/
structure Timely (run : Run) : Prop where
  seq : run.loop.timerSeq = run.loop.armed
  known : ∀ p alarm, run.loop.alarms p = some alarm →
    p ≤ run.loop.handles ∧ alarm.seq < run.loop.timerSeq ∧ alarm.period ≤ longest
  distinct : ∀ p q first second, run.loop.alarms p = some first →
    run.loop.alarms q = some second → first.seq = second.seq → p = q
  past : ∀ fire ∈ run.fired, fire.timer ≤ run.loop.handles ∧ fire.seq < run.loop.timerSeq ∧
    fire.period ≤ longest ∧ fire.fireAt ≤ fire.now ∧ fire.now ≤ run.loop.now
  ahead : ∀ fire ∈ run.fired, ∀ p alarm, run.loop.alarms p = some alarm → fire.key < alarm.key
  order : run.fired.Pairwise (fun first second => first.key < second.key)
  grid : ∀ fire ∈ run.fired, ∀ alarm, run.loop.alarms fire.timer = some alarm →
    OnGrid fire.fireAt fire.period alarm.fireAt alarm.period
  again : run.fired.Pairwise (fun first second => first.timer = second.timer →
    OnGrid first.fireAt first.period second.fireAt second.period)

theorem lex_lt {a b c d : Nat} (less : a ≤ c) (then' : b < d) :
    (toLex (a, b) : ℕ ×ₗ ℕ) < toLex (c, d) := by
  rw [Prod.Lex.toLex_lt_toLex]
  rcases less.lt_or_eq with early | same
  · exact .inl early
  · exact .inr ⟨same, then'⟩

/-- Nothing is armed: what holds of the alarms holds of those that are left. -/
theorem Timely.fewer {loop' : Loop} (timely : Timely run)
    (fewer : ∀ q alarm, loop'.alarms q = some alarm → run.loop.alarms q = some alarm)
    (seq : loop'.timerSeq = run.loop.timerSeq) (armed : loop'.armed = run.loop.armed)
    (later : Later run.loop loop') : Timely ⟨loop', run.fired⟩ where
  seq := by
    show loop'.timerSeq = loop'.armed
    rw [seq, armed]
    exact timely.seq
  known := fun p alarm set => by
    obtain ⟨handle, before, short⟩ := timely.known p alarm (fewer p alarm set)
    refine ⟨handle.trans later.handles, ?_, short⟩
    show alarm.seq < loop'.timerSeq
    rw [seq]
    exact before
  distinct := fun p q first second set set' =>
    timely.distinct p q first second (fewer p first set) (fewer q second set')
  past := fun fire held => by
    obtain ⟨handle, before, short, due, clock⟩ := timely.past fire held
    refine ⟨handle.trans later.handles, ?_, short, due, clock.trans later.now⟩
    show fire.seq < loop'.timerSeq
    rw [seq]
    exact before
  ahead := fun fire held p alarm set => timely.ahead fire held p alarm (fewer p alarm set)
  order := timely.order
  grid := fun fire held alarm set => timely.grid fire held alarm (fewer _ alarm set)
  again := timely.again

theorem disarmed_fewer {loop loop' : Loop} {p : Nat}
    (alarms : loop'.alarms = Function.update loop.alarms p none) (q : Nat) (alarm : Alarm)
    (set : loop'.alarms q = some alarm) : loop.alarms q = some alarm ∧ q ≠ p := by
  rw [alarms] at set
  cases decEq q p with
  | isTrue same =>
    rw [same, Function.update_self] at set
    cases set
  | isFalse other =>
    rw [Function.update_of_ne other] at set
    exact ⟨set, other⟩

/-- A new alarm is ahead of all that has fired. -/
theorem Timely.more {loop' : Loop} {p fireAt period : Nat} (timely : Timely run)
    (arms : Arms run.loop p fireAt period loop') (few : loop'.armed < 2 ^ 64)
    (soon : run.loop.now ≤ fireAt) (short : period ≤ longest) (handle : p ≤ loop'.handles)
    (grid : ∀ fire ∈ run.fired, fire.timer = p → OnGrid fire.fireAt fire.period fireAt period) :
    Timely ⟨loop', run.fired⟩ := by
  have next : loop'.timerSeq = run.loop.timerSeq + 1 := by
    rw [arms.seq, timely.seq]
    have armed := arms.armed
    exact Nat.mod_eq_of_lt (by omega)
  have cases : ∀ q alarm, loop'.alarms q = some alarm →
      (q = p ∧ alarm = ⟨fireAt, period, run.loop.timerSeq⟩) ∨ run.loop.alarms q = some alarm := by
    intro q alarm set
    rw [arms.alarms] at set
    cases decEq q p with
    | isTrue same =>
      rw [same, Function.update_self] at set
      exact .inl ⟨same, (Option.some.inj set).symm⟩
    | isFalse other =>
      rw [Function.update_of_ne other] at set
      exact .inr set
  refine ⟨?_, fun q alarm set => ?_, fun q r first second set set' same => ?_, fun fire held => ?_,
    fun fire held q alarm set => ?_, timely.order, fun fire held alarm set => ?_, timely.again⟩
  · show loop'.timerSeq = loop'.armed
    rw [next, arms.armed, timely.seq]
  · show q ≤ loop'.handles ∧ alarm.seq < loop'.timerSeq ∧ _
    rcases cases q alarm set with ⟨rfl, rfl⟩ | old
    · exact ⟨handle, by rw [next]; exact Nat.lt_succ_self _, short⟩
    · obtain ⟨known, before, brief⟩ := timely.known q alarm old
      exact ⟨known.trans arms.later.handles, by omega, brief⟩
  · rcases cases q first set with ⟨rfl, rfl⟩ | old
    · rcases cases r second set' with ⟨rfl, -⟩ | old'
      · rfl
      · have before := (timely.known r second old').2.1
        have known : run.loop.timerSeq = second.seq := same
        omega
    · rcases cases r second set' with ⟨rfl, rfl⟩ | old'
      · have before := (timely.known q first old).2.1
        have known : first.seq = run.loop.timerSeq := same
        omega
      · exact timely.distinct q r first second old old' same
  · show fire.timer ≤ loop'.handles ∧ fire.seq < loop'.timerSeq ∧ _ ∧ _ ∧ fire.now ≤ loop'.now
    obtain ⟨known, before, brief, due, clock⟩ := timely.past fire held
    exact ⟨known.trans arms.later.handles, by omega, brief, due, clock.trans arms.later.now⟩
  · rcases cases q alarm set with ⟨rfl, rfl⟩ | old
    · obtain ⟨-, before, -, due, clock⟩ := timely.past fire held
      exact lex_lt ((due.trans clock).trans soon) before
    · exact timely.ahead fire held q alarm old
  · rcases cases fire.timer alarm set with ⟨same, rfl⟩ | old
    · exact grid fire held same
    · exact timely.grid fire held alarm old

/-- The alarm that is before all others fires. -/
theorem Timely.fires {loop' : Loop} {p : Nat} {alarm : Alarm} (timely : Timely run)
    (set : run.loop.alarms p = some alarm) (due : alarm.fireAt ≤ run.loop.now)
    (first : ∀ q other, run.loop.alarms q = some other → alarm.key ≤ other.key)
    (disarms : Disarms run.loop p loop') :
    Timely ⟨loop', run.fired ++ [⟨p, alarm.fireAt, alarm.period, alarm.seq, run.loop.now⟩]⟩ := by
  have rest := timely.fewer (fun q other here => (disarmed_fewer disarms.alarms q other here).1)
    disarms.seq disarms.armed disarms.later
  obtain ⟨handle, before, short⟩ := timely.known p alarm set
  refine ⟨rest.seq, rest.known, rest.distinct, fun fire held => ?_, fun fire held q other here => ?_,
    ?_, fun fire held other here => ?_, ?_⟩
  · rcases List.mem_append.mp held with old | isNew
    · exact rest.past fire old
    · rw [List.mem_singleton.mp isNew]
      refine ⟨handle.trans disarms.later.handles, ?_, short, due, disarms.later.now⟩
      show alarm.seq < loop'.timerSeq
      rw [disarms.seq]
      exact before
  · rcases List.mem_append.mp held with old | isNew
    · exact rest.ahead fire old q other here
    · rw [List.mem_singleton.mp isNew]
      obtain ⟨set', apart⟩ := disarmed_fewer disarms.alarms q other here
      refine lt_of_le_of_ne (first q other set') (fun same => apart ?_)
      have seqs : alarm.seq = other.seq := congrArg (fun key => (ofLex key).2) same
      exact timely.distinct q p other alarm set' set seqs.symm
  · refine List.pairwise_append.mpr ⟨timely.order, List.pairwise_singleton _ _, ?_⟩
    intro fire held last isLast
    rw [List.mem_singleton.mp isLast]
    exact timely.ahead fire held p alarm set
  · obtain ⟨set', apart⟩ := disarmed_fewer disarms.alarms _ other here
    rcases List.mem_append.mp held with old | isNew
    · exact timely.grid fire old other set'
    · rw [List.mem_singleton.mp isNew] at apart
      exact absurd rfl apart
  · refine List.pairwise_append.mpr ⟨timely.again, List.pairwise_singleton _ _, ?_⟩
    intro fire held last isLast same
    rw [List.mem_singleton.mp isLast] at same ⊢
    have here : fire.timer = p := same
    rw [← here] at set
    exact timely.grid fire held alarm set

theorem Moves.later (moves : Moves run run') : Later run.loop run'.loop := by
  cases moves with
  | call turn =>
    cases turn with
    | rest rests => exact rests.later
    | disarm p disarms => exact disarms.later
    | add p fireAt period adds => exact adds.arms.later
  | ring p alarm set due first disarms => exact disarms.later
  | again before fire last periodic arms => exact arms.later

theorem Moves.timely (moves : Moves run run') (within : Within run') (timely : Timely run) :
    Timely run' := by
  have bound : longest < 2 ^ 63 := by decide
  have now := moves.later.now
  have early := within.now
  cases moves with
  | call turn =>
    cases turn with
    | rest rests =>
      exact timely.fewer (fun q alarm set => by rwa [rests.alarms] at set) rests.seq rests.armed
        rests.later
    | disarm p disarms =>
      exact timely.fewer (fun q alarm set => (disarmed_fewer disarms.alarms q alarm set).1)
        disarms.seq disarms.armed disarms.later
    | add p fireAt period adds =>
      obtain ⟨afterMs, after⟩ := adds.after
      obtain ⟨periodMs, every⟩ := adds.period
      have ms := afterMs.toNat_lt
      have ms' := periodMs.toNat_lt
      have long : longest = 2 ^ 32 * 1000 := rfl
      have clock : run.loop.now ≤ fireAt := by
        have sum : u64 (run.loop.now + afterMs.toNat * 1000) = run.loop.now + afterMs.toNat * 1000 :=
          Nat.mod_eq_of_lt (by omega)
        omega
      refine timely.more adds.arms within.armed clock (by omega) adds.new.2 (fun fire held same => ?_)
      have known := (timely.past fire held).1
      have fresh := adds.new.1
      omega
  | ring p alarm set due first disarms => exact timely.fires set due first disarms
  | again before fire last periodic arms =>
    have held : fire ∈ run.fired := by
      rw [last]
      exact List.mem_append_right _ (List.mem_singleton_self _)
    obtain ⟨known, -, short, due, clock⟩ := timely.past fire held
    obtain ⟨next, ahead, -⟩ := timerRepeatAt_grid (due.trans clock) periodic short (by omega)
    have onGrid : OnGrid fire.fireAt fire.period
        (timerRepeatAt fire.fireAt fire.period run.loop.now) fire.period :=
      ⟨rfl, periodic, _, Nat.succ_pos _, next⟩
    refine timely.more arms within.armed ahead.le short (known.trans arms.later.handles)
      (fun other isHeld same => ?_)
    have pairs := timely.again
    rw [last] at pairs isHeld
    rcases List.mem_append.mp isHeld with old | isLast
    · have before' := (List.pairwise_append.mp pairs).2.2 other old fire (List.mem_singleton_self _)
      exact (before' same).trans onGrid
    · rw [List.mem_singleton.mp isLast]
      exact onGrid

theorem Later.trans {loop loop' loop'' : Loop} (first : Later loop loop')
    (second : Later loop' loop'') : Later loop loop'' where
  now := first.now.trans second.now
  armed := first.armed.trans second.armed
  handles := first.handles.trans second.handles
  gone := fun q known none => second.gone q (known.trans first.handles) (first.gone q known none)

theorem MovesOn.later (moves : MovesOn run run') : Later run.loop run'.loop := by
  induction moves with
  | refl => exact later_refl _
  | tail _ move ih => exact ih.trans move.later

theorem MovesOn.timely (moves : MovesOn run run') (within : Within run') (timely : Timely run) :
    Timely run' := by
  induction moves with
  | refl => exact timely
  | tail _ move ih =>
    have later := move.later
    exact move.timely within (ih ⟨later.now.trans_lt within.now, later.armed.trans_lt within.armed⟩)

/-- A timer that is no longer in memory does not fire. -/
theorem MovesOn.silent {p : Nat} (moves : MovesOn run run') (handle : p ≤ run.loop.handles)
    (freed : run.loop.memory p = none) :
    ∃ more, run'.fired = run.fired ++ more ∧ ∀ fire ∈ more, fire.timer ≠ p := by
  induction moves with
  | refl => exact ⟨[], (List.append_nil _).symm, nofun⟩
  | @tail between after before move ih =>
    obtain ⟨more, fired, others⟩ := ih
    have gone := (MovesOn.later before).gone p handle freed
    cases move with
    | call turn => exact ⟨more, fired, others⟩
    | again _ _ _ _ _ => exact ⟨more, fired, others⟩
    | ring q alarm set due first disarms =>
      refine ⟨more ++ [⟨q, alarm.fireAt, alarm.period, alarm.seq, between.loop.now⟩], ?_, ?_⟩
      · show between.fired ++ _ = _
        rw [fired, List.append_assoc]
      · intro fire held
        rcases List.mem_append.mp held with old | isNew
        · exact others fire old
        · rw [List.mem_singleton.mp isNew]
          intro same
          obtain ⟨-, timer, found, -⟩ := alarms_some set
          have here : q = p := same
          rw [here, gone] at found
          cases found

/-! ## Whole runs -/

variable {may : Op → Prop} {now : Nat}

theorem fresh_sound (now : Nat) : Sound (Loop.fresh now) where
  placed := ⟨le_refl _, fun _ held => absurd held (Nat.not_lt_zero _)⟩
  heaped := fun _ _ held => absurd held (Nat.not_lt_zero _)
  index := nofun
  live := nofun
  marked := nofun
  handle := fun _ known => absurd rfl known

theorem fresh_quiet (now : Nat) : Quiet (Loop.fresh now) := by
  rintro q ⟨timer, found, -⟩
  cases found

theorem fresh_alarms (now p : Nat) : (Loop.fresh now).alarms p = none := by
  unfold Loop.alarms
  split
  · rfl
  · rfl

theorem start_timely (now : Nat) : Timely (.start now) where
  seq := rfl
  known := fun p alarm set => by
    have none := fresh_alarms now p
    rw [show (Run.start now).loop = Loop.fresh now from rfl, none] at set
    cases set
  distinct := fun p q first second set => by
    have none := fresh_alarms now p
    rw [show (Run.start now).loop = Loop.fresh now from rfl, none] at set
    cases set
  past := nofun
  ahead := nofun
  order := List.Pairwise.nil
  grid := nofun
  again := List.Pairwise.nil

theorem Follows.stepped (follows : Follows may run run') (sound : Sound run.loop)
    (quiet : Quiet run.loop) : Stepped (∀ op, may op → Ample op) run run' := by
  induction follows with
  | refl => exact ⟨sound, quiet, .refl, fun _ kept => kept⟩
  | @step between after op _ allowed stepped ih =>
    have next := Yields.of_ok (step_ok ih.sound ih.quiet op) stepped
    exact ⟨next.sound, next.quiet, ih.moves.trans next.moves,
      fun ample kept => next.kept (ample op allowed) (ih.kept ample kept)⟩

theorem reached (follows : Follows may (.start now) run) :
    Stepped (∀ op, may op → Ample op) (.start now) run :=
  follows.stepped (fresh_sound now) (fresh_quiet now)

/-! A one-shot timer of 5 ms and a periodic one of 3 ms every 10 ms: after 5 ms both fire,
and 20 ms later the callback of the periodic one arms a third. -/

def still : Nat → Round := fun _ => ⟨0, false, ⟨[], true⟩⟩

def adding : Nat → Round := fun _ => ⟨0, false, ⟨[.after 1 0 true true], true⟩⟩

def demoOps : List Op :=
  [.call (.after 5 0 true true), .call (.after 3 10 true true), .call (.wait 5000),
    .phase 8 still, .call (.wait 20000), .phase 8 adding]

def Run.through (run : Run) (ops : List Op) : Except Fault Run := ops.foldlM Run.step run

theorem Follows.through {ops : List Op} {between : Run} (follows : Follows may run between)
    (allowed : ∀ op ∈ ops, may op) (passed : between.through ops = .ok run') :
    Follows may run run' := by
  induction ops generalizing between with
  | nil =>
    cases passed
    exact follows
  | cons op rest ih =>
    unfold Run.through at passed
    rw [List.foldlM_cons] at passed
    cases stepped : between.step op with
    | error fault =>
      rw [stepped] at passed
      cases passed
    | ok next =>
      rw [stepped] at passed
      exact ih (follows.step (allowed op List.mem_cons_self) stepped)
        (fun op held => allowed op (List.mem_cons_of_mem _ held)) passed

/-- What is checked of the run: the timers that fired and the two that are armed, what
happens when the third is stopped, and what a phase 9 ms later would fire. -/
def demoChecks (run : Run) : Bool :=
  decide (run.fired.map Fire.timer = [2, 1, 2] ∧ run.loop.now < 2 ^ 63 ∧ run.loop.armed < 2 ^ 64) &&
    decide (run.loop.timerCount = 2) &&
    (match run.step (.call (.stop 3)) with
      | .ok stopped => (stopped.through [.call (.wait 9000), .phase 8 still]).isOk
      | .error _ => false) &&
    (match run.step (.call (.wait 9000)) with
      | .ok waited =>
        match runTimerPhase still 8 waited.loop with
        | .ok (_, fired, left) => decide (fired.map Fire.timer = [3, 2] ∧ left = 6)
        | .error _ => false
      | .error _ => false)

theorem demo_runs : ∃ run, Follows Ample (.start 0) run ∧ demoChecks run = true := by
  have tested : (match (Run.start 0).through demoOps with
      | .ok run => demoChecks run
      | .error _ => false) = true := by decide +kernel
  cases passed : (Run.start 0).through demoOps with
  | error fault =>
    rw [passed] at tested
    cases tested
  | ok run =>
    rw [passed] at tested
    refine ⟨run, Follows.through .refl (fun op held => ?_) passed, tested⟩
    simp only [demoOps, List.mem_cons, List.not_mem_nil, or_false] at held
    rcases held with rfl | rfl | rfl | rfl | rfl | rfl
    · trivial
    · trivial
    · trivial
    · exact fun _ => rfl
    · trivial
    · exact fun _ => rfl

/-- Whatever callers and callbacks do, no timer that was freed and no cell outside the array
is ever read or written, as long as no caller hands in a handle that is no longer valid. -/
theorem timers_never_fault (follows : Follows may (.start now) run) (op : Op) :
    (∃ next, run.step op = .ok next) ∨ run.step op = .error .misuse := by
  have good := reached follows
  have yields := step_ok good.sound good.quiet op
  cases stepped : run.step op with
  | ok next => exact .inl ⟨next, rfl⟩
  | error fault =>
    have blamed : fault = .misuse := yields.of_error stepped
    rw [blamed]
    exact .inr rfl

theorem demo_never_faults : ∃ run, Follows Ample (.start 0) run ∧
    ((∃ next, run.step (.call (.stop 1)) = .ok next) ∨
      run.step (.call (.stop 1)) = .error .misuse) := by
  obtain ⟨run, follows, -⟩ := demo_runs
  exact ⟨run, follows, timers_never_fault follows _⟩

/-- Between calls the heap holds every timer in memory, each in the one cell it knows, none
of them stopped; the first cell is due before all others. -/
theorem timers_accounted (ample : ∀ op, may op → Ample op)
    (follows : Follows may (.start now) run) :
    (∀ p timer, run.loop.memory p = some timer → timer.dead = false ∧
      ∃ i < run.loop.timerCount, timer.heapIndex = i ∧
        ∀ j < run.loop.timerCount, run.loop.timers j = p ↔ j = i) ∧
    (∀ i < run.loop.timerCount, run.loop.memory (run.loop.timers i) ≠ none ∧
      run.loop.key (run.loop.timers 0) ≤ run.loop.key (run.loop.timers i)) := by
  have good := reached follows
  have kept : Kept run.loop := good.kept ample (fun q known => absurd rfl known)
  constructor
  · intro p timer found
    have linked : Linked run.loop p :=
      (kept p (by rw [found]; exact Option.some_ne_none _)).resolve_right (good.quiet p)
    refine ⟨(good.sound.live p timer found linked).1, ?_⟩
    obtain ⟨held, here, index⟩ := good.sound.placed.index found linked
    refine ⟨timer.heapIndex.toNat, held, (Int.toNat_of_nonneg index).symm, fun j inside => ?_⟩
    constructor
    · exact fun same => good.sound.placed.inj inside held (same.trans here.symm)
    · rintro rfl
      exact here
  · intro i held
    obtain ⟨timer, found, -⟩ := good.sound.placed.held i held
    exact ⟨by rw [found]; exact Option.some_ne_none _, Ordered.root good.sound.heaped held⟩

theorem demo_accounted : ∃ run, Follows Ample (.start 0) run ∧ run.loop.timerCount = 2 ∧
    (∀ p timer, run.loop.memory p = some timer → timer.dead = false ∧
      ∃ i < run.loop.timerCount, timer.heapIndex = i ∧
        ∀ j < run.loop.timerCount, run.loop.timers j = p ↔ j = i) ∧
    (∀ i < run.loop.timerCount, run.loop.memory (run.loop.timers i) ≠ none ∧
      run.loop.key (run.loop.timers 0) ≤ run.loop.key (run.loop.timers i)) := by
  obtain ⟨run, follows, checks⟩ := demo_runs
  simp only [demoChecks, Bool.and_eq_true, decide_eq_true_eq] at checks
  exact ⟨run, follows, checks.1.1.2, timers_accounted (fun _ ample => ample) follows⟩

theorem demo_within {run : Run} (checks : demoChecks run = true) :
    run.fired.map Fire.timer = [2, 1, 2] ∧ Within run := by
  simp only [demoChecks, Bool.and_eq_true, decide_eq_true_eq] at checks
  exact ⟨checks.1.1.1.1, checks.1.1.1.2.1, checks.1.1.1.2.2⟩

/-- Timers fire in the order of their due times, then of their arming, through the whole
run, and none before its time. -/
theorem fires_in_order (follows : Follows may (.start now) run) (within : Within run) :
    run.fired.Pairwise (fun first second => first.key < second.key) ∧
      ∀ fire ∈ run.fired, fire.fireAt ≤ fire.now := by
  have timely := MovesOn.timely (reached follows).moves within (start_timely now)
  exact ⟨timely.order, fun fire held => (timely.past fire held).2.2.2.1⟩

theorem demo_in_order : ∃ run, Follows Ample (.start 0) run ∧
    run.fired.map Fire.timer = [2, 1, 2] ∧
      run.fired.Pairwise (fun first second => first.key < second.key) := by
  obtain ⟨run, follows, checks⟩ := demo_runs
  obtain ⟨fired, within⟩ := demo_within checks
  exact ⟨run, follows, fired, (fires_in_order follows within).1⟩

/-- A timer that fires again is periodic, and fires on the grid that it started on. -/
theorem fires_on_grid (follows : Follows may (.start now) run) (within : Within run) :
    run.fired.Pairwise (fun first second => first.timer = second.timer →
      second.period = first.period ∧ 0 < first.period ∧
        ∃ k, 0 < k ∧ second.fireAt = first.fireAt + k * first.period) := by
  have timely := MovesOn.timely (reached follows).moves within (start_timely now)
  exact timely.again.imp (fun again same =>
    ⟨(again same).kept, (again same).periodic, (again same).later⟩)

theorem demo_on_grid : ∃ run, Follows Ample (.start 0) run ∧
    run.fired.map Fire.timer = [2, 1, 2] ∧
      run.fired.Pairwise (fun first second => first.timer = second.timer →
        second.period = first.period ∧ 0 < first.period ∧
          ∃ k, 0 < k ∧ second.fireAt = first.fireAt + k * first.period) := by
  obtain ⟨run, follows, checks⟩ := demo_runs
  obtain ⟨fired, within⟩ := demo_within checks
  exact ⟨run, follows, fired, fires_on_grid follows within⟩

theorem stop_frees {loop loop' : Loop} {p : Nat} (sound : Sound loop) (quiet : Quiet loop)
    (done : cemonTimerStop loop p = .ok loop') : loop'.memory p = none ∧ p ≤ loop.handles := by
  unfold cemonTimerStop at done
  split at done
  · cases done
  · rename_i timer found
    have known := (sound.handle p (by rw [found]; exact Option.some_ne_none _)).2
    split at done
    · rename_i dead
      exact absurd ⟨timer, found, sound.marked p timer found dead⟩ (quiet p)
    · split at done
      · rename_i firing
        exact absurd ⟨timer, found, firing⟩ (quiet p)
      · cases unlinked : timerUnlink (loop.store p { timer with dead := true }) p with
        | error fault =>
          simp only [unlinked, bind, Except.bind] at done
          cases done
        | ok left =>
          simp only [unlinked, bind, Except.bind, pure, Except.pure] at done
          cases done
          exact ⟨if_pos rfl, known⟩

/-- What was stopped between callbacks never fires again. -/
theorem stopped_never_fires (follows : Follows may (.start now) run) {p : Nat} {stopped : Run}
    (stop : run.step (.call (.stop p)) = .ok stopped) (after : Follows may stopped run') :
    ∃ more, run'.fired = run.fired ++ more ∧ ∀ fire ∈ more, fire.timer ≠ p := by
  have good := reached follows
  have next := Yields.of_ok (step_ok good.sound good.quiet _) stop
  have freed : stopped.loop.memory p = none ∧ p ≤ stopped.loop.handles ∧
      stopped.fired = run.fired := by
    cases done : run.loop.call (.stop p) with
    | error fault =>
      simp only [Run.step, done, bind, Except.bind] at stop
      cases stop
    | ok loop' =>
      simp only [Run.step, done, bind, Except.bind, pure, Except.pure] at stop
      cases stop
      have called := Yields.of_ok (call_called good.sound (.stop p)) done
      obtain ⟨gone, handle⟩ := stop_frees good.sound good.quiet done
      have later : Later run.loop loop' := (Moves.call called.turn : Moves run _).later
      exact ⟨gone, handle.trans later.handles, rfl⟩
  obtain ⟨more, fired, others⟩ :=
    MovesOn.silent (after.stepped next.sound next.quiet).moves freed.2.1 freed.1
  exact ⟨more, by rw [fired, freed.2.2], others⟩

theorem demo_stopped : ∃ run stopped run', Follows Ample (.start 0) run ∧
    run.step (.call (.stop 3)) = .ok stopped ∧ Follows Ample stopped run' ∧
      ∃ more, run'.fired = run.fired ++ more ∧ ∀ fire ∈ more, fire.timer ≠ 3 := by
  obtain ⟨run, follows, checks⟩ := demo_runs
  simp only [demoChecks, Bool.and_eq_true] at checks
  obtain ⟨⟨-, tested⟩, -⟩ := checks
  cases stop : run.step (.call (.stop 3)) with
  | error fault =>
    rw [stop] at tested
    cases tested
  | ok stopped =>
    rw [stop] at tested
    dsimp only at tested
    cases passed : stopped.through [.call (.wait 9000), .phase 8 still] with
    | error fault =>
      rw [passed] at tested
      cases tested
    | ok run' =>
      have after : Follows Ample stopped run' := by
        refine Follows.through .refl (fun op held => ?_) passed
        simp only [List.mem_cons, List.not_mem_nil, or_false] at held
        rcases held with rfl | rfl
        · trivial
        · exact fun _ => rfl
      exact ⟨run, stopped, run', follows, stop, after, stopped_never_fires follows stop after⟩

/-- A timer phase that is not cut short leaves no alarm that is due. -/
theorem phase_drains (follows : Follows may (.start now) run) {rounds : Nat → Round}
    {budget left : Nat} {loop : Loop} {fired : List Fire}
    (done : runTimerPhase rounds budget run.loop = .ok (loop, fired, left))
    (whole : 1 < left ∨ (left = 1 ∧ ∀ n, (rounds n).tailReady = false)) (q : Nat) (alarm : Alarm)
    (set : loop.alarms q = some alarm) : loop.now < alarm.fireAt := by
  have good := reached follows
  have phased := Yields.of_ok (runTimerPhase_ok rounds budget good.sound good.quiet) done
  exact phased.2 whole q alarm set

theorem demo_drains : ∃ run loop fired, Follows Ample (.start 0) run ∧
    runTimerPhase still 8 run.loop = .ok (loop, fired, 6) ∧ fired.map Fire.timer = [3, 2] ∧
      ∀ q alarm, loop.alarms q = some alarm → loop.now < alarm.fireAt := by
  obtain ⟨run, follows, checks⟩ := demo_runs
  simp only [demoChecks, Bool.and_eq_true] at checks
  obtain ⟨-, tested⟩ := checks
  cases wait : run.step (.call (.wait 9000)) with
  | error fault =>
    rw [wait] at tested
    cases tested
  | ok waited =>
    rw [wait] at tested
    dsimp only at tested
    cases done : runTimerPhase still 8 waited.loop with
    | error fault =>
      rw [done] at tested
      cases tested
    | ok result =>
      obtain ⟨loop, fired, left⟩ := result
      rw [done] at tested
      obtain ⟨order, budget⟩ := of_decide_eq_true tested
      subst budget
      have ample : Ample (.call (.wait 9000)) := trivial
      have reached : Follows Ample (.start 0) waited := follows.step ample wait
      exact ⟨waited, loop, fired, reached, done, order,
        phase_drains reached done (.inl (by decide))⟩

end Kynovo.Event
