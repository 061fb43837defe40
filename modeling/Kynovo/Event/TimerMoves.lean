import Kynovo.Event.TimerHeap
import Mathlib.Logic.Relation

/-! Runs of the timers. What the loop promises is told without the heap: which alarms
are set, and what a call or a callback does to them. -/
namespace Kynovo.Event
open Kynovo.Lib.BinaryHeap
open Kynovo.Lib.Outcome

variable {loop loop' : Loop} {p : Nat} {timer : Timer}

/-! ## Alarms -/

structure Alarm where
  fireAt : Nat
  period : Nat
  seq : Nat
deriving DecidableEq

def Alarm.key (alarm : Alarm) : ℕ ×ₗ ℕ := toLex (alarm.fireAt, alarm.seq)

def Timer.alarm (timer : Timer) : Alarm := ⟨timer.fireAt, timer.period, timer.seq⟩

instance (loop : Loop) (p : Nat) : Decidable (Linked loop p) :=
  inferInstanceAs (Decidable (∃ i < loop.timerCount, loop.timers i = p))

/-- The alarms that are set: those of the timers in the heap. -/
def Loop.alarms (loop : Loop) (p : Nat) : Option Alarm :=
  if Linked loop p then (loop.memory p).map Timer.alarm else none

/-- The loop between two calls. Every timer knows whether it is in the heap, one that is
in it neither was stopped nor is in its callback, and one that was stopped is in its
callback. -/
structure Sound (loop : Loop) : Prop where
  placed : Placed loop
  heaped : Heaped loop
  index : ∀ p timer, loop.memory p = some timer → 0 ≤ timer.heapIndex → Linked loop p
  live : ∀ p timer, loop.memory p = some timer → Linked loop p →
    timer.dead = false ∧ timer.firing = false
  marked : ∀ p timer, loop.memory p = some timer → timer.dead = true → timer.firing = true
  handle : ∀ p, loop.memory p ≠ none → 0 < p ∧ p ≤ loop.handles

theorem alarms_congr (linked : Linked loop' p ↔ Linked loop p)
    (bare : (loop'.memory p).map Timer.bare = (loop.memory p).map Timer.bare) :
    loop'.alarms p = loop.alarms p := by
  have same : (loop'.memory p).map Timer.alarm = (loop.memory p).map Timer.alarm := by
    have through : ∀ timers : Option Timer,
        timers.map Timer.alarm = (timers.map Timer.bare).map Timer.alarm := by
      intro timers
      cases timers with
      | none => rfl
      | some timer => rfl
    rw [through, bare, ← through]
  unfold Loop.alarms
  rw [same]
  simp only [linked]

theorem Placed.found (placed : Placed loop) (linked : Linked loop p) :
    ∃ timer, loop.memory p = some timer := by
  obtain ⟨i, held, rfl⟩ := linked
  obtain ⟨timer, found, -⟩ := placed.held i held
  exact ⟨timer, found⟩

theorem alarms_some {alarm : Alarm} (set : loop.alarms p = some alarm) :
    Linked loop p ∧ ∃ timer, loop.memory p = some timer ∧ timer.alarm = alarm := by
  unfold Loop.alarms at set
  split at set
  · rename_i linked
    exact ⟨linked, Option.map_eq_some_iff.mp set⟩
  · cases set

theorem alarms_key {alarm : Alarm} (set : loop.alarms p = some alarm) : loop.key p = alarm.key := by
  obtain ⟨-, timer, found, rfl⟩ := alarms_some set
  unfold Loop.key
  rw [found]
  rfl

/-- A timer that is not in memory has no alarm. -/
theorem Placed.no_alarm (placed : Placed loop) (freed : loop.memory p = none) :
    ¬ Linked loop p := by
  intro linked
  obtain ⟨timer, found⟩ := placed.found linked
  rw [freed] at found
  cases found

/-! ## What happens to alarms -/

/-- What any turn leaves: the clock goes on, handles and armings are only added, and
what was freed is not used again. -/
structure Later (loop loop' : Loop) : Prop where
  now : loop.now ≤ loop'.now
  armed : loop.armed ≤ loop'.armed
  handles : loop.handles ≤ loop'.handles
  gone : ∀ q ≤ loop.handles, loop.memory q = none → loop'.memory q = none

/-- Nothing is armed or disarmed. -/
structure Rests (loop loop' : Loop) : Prop where
  alarms : loop'.alarms = loop.alarms
  seq : loop'.timerSeq = loop.timerSeq
  armed : loop'.armed = loop.armed
  later : Later loop loop'

/-- One alarm is no longer set. -/
structure Disarms (loop : Loop) (p : Nat) (loop' : Loop) : Prop where
  alarms : loop'.alarms = Function.update loop.alarms p none
  seq : loop'.timerSeq = loop.timerSeq
  armed : loop'.armed = loop.armed
  later : Later loop loop'

/-- One alarm is set that was not. -/
structure Arms (loop : Loop) (p fireAt period : Nat) (loop' : Loop) : Prop where
  free : loop.alarms p = none
  alarms : loop'.alarms = Function.update loop.alarms p (some ⟨fireAt, period, loop.timerSeq⟩)
  seq : loop'.timerSeq = u64 (loop.timerSeq + 1)
  armed : loop'.armed = loop.armed + 1
  present : loop'.memory p ≠ none
  later : Later loop loop'

theorem Links.alarms (links : Links loop p loop') (found : loop.memory p = some timer) :
    loop'.alarms = Function.update loop.alarms p
      (some ⟨timer.fireAt, timer.period, loop.timerSeq⟩) := by
  funext q
  cases decEq q p with
  | isTrue same =>
    subst same
    rw [Function.update_self]
    have bare := links.self timer found
    obtain ⟨timer', found', shape⟩ := Option.map_eq_some_iff.mp bare
    have fields : timer'.alarm = ⟨timer.fireAt, timer.period, loop.timerSeq⟩ := by
      have through : timer'.alarm = timer'.bare.alarm := rfl
      rw [through, shape]
      rfl
    unfold Loop.alarms
    rw [if_pos ((links.linked q).mpr (.inr rfl)), found', Option.map_some, fields]
  | isFalse other =>
    rw [Function.update_of_ne other]
    refine alarms_congr ((links.linked q).trans ?_) (links.others q other)
    simp [other]

theorem Unlinks.alarms (unlinks : Unlinks loop p loop') :
    loop'.alarms = Function.update loop.alarms p none := by
  funext q
  cases decEq q p with
  | isTrue same =>
    subst same
    rw [Function.update_self]
    unfold Loop.alarms
    rw [if_neg (fun linked => ((unlinks.linked q).mp linked).2 rfl)]
  | isFalse other =>
    rw [Function.update_of_ne other]
    refine alarms_congr ((unlinks.linked q).trans ?_) (unlinks.others q other)
    simp [other]

/-- Another record at a place that is not in the heap. -/
theorem alarms_store (away : ¬ Linked loop p) (timer : Timer) :
    (loop.store p timer).alarms = loop.alarms := by
  funext q
  have linked : Linked (loop.store p timer) q ↔ Linked loop q := Iff.rfl
  unfold Loop.alarms
  simp only [linked]
  split
  · rename_i inside
    have other : q ≠ p := fun same => away (same ▸ inside)
    show Option.map _ (if q = p then _ else loop.memory q) = _
    rw [if_neg other]
  · rfl

theorem alarms_free (away : ¬ Linked loop p) : (loop.free p).alarms = loop.alarms := by
  funext q
  have linked : Linked (loop.free p) q ↔ Linked loop q := Iff.rfl
  unfold Loop.alarms
  simp only [linked]
  split
  · rename_i inside
    have other : q ≠ p := fun same => away (same ▸ inside)
    show Option.map _ (if q = p then _ else loop.memory q) = _
    rw [if_neg other]
  · rfl

/-! ## A sound loop stays sound -/

structure SameArray (loop loop' : Loop) : Prop where
  timers : loop'.timers = loop.timers
  count : loop'.timerCount = loop.timerCount
  cap : loop'.timerCap = loop.timerCap

theorem SameArray.linked (array : SameArray loop loop') (q : Nat) :
    Linked loop' q ↔ Linked loop q := by
  unfold Linked
  rw [array.timers, array.count]

theorem Placed.congr (placed : Placed loop)
    (array : SameArray loop loop')
    (memory : ∀ q, Linked loop q → loop'.memory q = loop.memory q) : Placed loop' := by
  refine ⟨by rw [array.count, array.cap]; exact placed.room, fun i held => ?_⟩
  rw [array.count] at held
  rw [array.timers, memory _ ⟨i, held, rfl⟩]
  exact placed.held i held

theorem Heaped.congr (heaped : Heaped loop)
    (array : SameArray loop loop')
    (memory : ∀ q, Linked loop q → loop'.memory q = loop.memory q) : Heaped loop' := by
  have keys : ∀ i < loop.timerCount, loop'.key (loop.timers i) = loop.key (loop.timers i) := by
    intro i held
    unfold Loop.key
    rw [memory _ ⟨i, held, rfl⟩]
  have ordered : Ordered loop'.key loop.timerCount loop.timers := ordered_congr heaped keys
  unfold Heaped
  rw [array.count, array.timers]
  exact ordered

/-- Another record for a timer that is not in the heap, or none. -/
theorem Sound.put (sound : Sound loop) (away : ¬ Linked loop p)
    (array : SameArray loop loop')
    (others : ∀ q, q ≠ p → loop'.memory q = loop.memory q)
    (self : ∀ timer, loop'.memory p = some timer → timer.heapIndex < 0 ∧
      (timer.dead = true → timer.firing = true) ∧ 0 < p ∧ p ≤ loop'.handles)
    (handles : loop.handles ≤ loop'.handles) : Sound loop' := by
  have memory : ∀ q, Linked loop q → loop'.memory q = loop.memory q :=
    fun q linked => others q (fun same => away (same ▸ linked))
  have linked := array.linked
  refine ⟨sound.placed.congr array memory, sound.heaped.congr array memory,
    fun q timer found index => ?_, fun q timer found inside => ?_, fun q timer found dead => ?_,
    fun q found => ?_⟩
  · cases decEq q p with
    | isTrue same =>
      subst same
      have := (self timer found).1
      omega
    | isFalse other =>
      rw [others q other] at found
      exact (linked q).mpr (sound.index q timer found index)
  · have inside' := (linked q).mp inside
    rw [memory q inside'] at found
    exact sound.live q timer found inside'
  · cases decEq q p with
    | isTrue same =>
      subst same
      exact (self timer found).2.1 dead
    | isFalse other =>
      rw [others q other] at found
      exact sound.marked q timer found dead
  · cases decEq q p with
    | isTrue same =>
      subst same
      obtain ⟨timer, here⟩ := Option.ne_none_iff_exists'.mp found
      exact (self timer here).2.2
    | isFalse other =>
      rw [others q other] at found
      have kept := sound.handle q found
      omega

theorem bare_none {timers timers' : Option Timer}
    (same : timers'.map Timer.bare = timers.map Timer.bare) : timers' = none ↔ timers = none := by
  cases timers with
  | none =>
    cases timers' with
    | none => exact Iff.rfl
    | some timer' => cases same
  | some timer =>
    cases timers' with
    | none => cases same
    | some timer' => simp

theorem bare_eq {first second : Timer} (same : first.bare = second.bare) :
    first.dead = second.dead ∧ first.firing = second.firing ∧ first.alarm = second.alarm := by
  have dead := congrArg Timer.dead same
  have firing := congrArg Timer.firing same
  have alarm := congrArg Timer.alarm same
  exact ⟨dead, firing, alarm⟩

/-- The fields of a timer that its place has no part in. -/
theorem bare_fields {timers : Option Timer} {timer' : Timer}
    (same : (some timer').map Timer.bare = timers.map Timer.bare) :
    ∃ timer, timers = some timer ∧ timer'.dead = timer.dead ∧ timer'.firing = timer.firing ∧
      timer'.alarm = timer.alarm := by
  cases timers with
  | none => cases same
  | some timer =>
    exact ⟨timer, rfl, bare_eq (Option.some.inj same)⟩

theorem Sound.links (sound : Sound loop) (found : loop.memory p = some timer)
    (awake : timer.dead = false ∧ timer.firing = false) (links : Links loop p loop') :
    Sound loop' where
  placed := links.placed
  heaped := links.heaped
  index := fun q timer' found' index => by
    refine (links.linked q).mpr ?_
    by_cases inside : Linked loop q
    · exact .inl inside
    · cases decEq q p with
      | isTrue same => exact .inr same
      | isFalse other =>
        rw [links.apart q inside other] at found'
        exact .inl (sound.index q timer' found' index)
  live := fun q timer' found' inside => by
    cases decEq q p with
    | isTrue same =>
      subst same
      have bare := links.self timer found
      rw [found'] at bare
      have fields : timer'.bare = { timer.bare with seq := loop.timerSeq } := Option.some.inj bare
      exact ⟨(congrArg Timer.dead fields).trans awake.1,
        (congrArg Timer.firing fields).trans awake.2⟩
    | isFalse other =>
      have bare := links.others q other
      rw [found'] at bare
      obtain ⟨old, here, dead, firing, -⟩ := bare_fields bare
      rw [dead, firing]
      exact sound.live q old here (((links.linked q).mp inside).resolve_right other)
  marked := fun q timer' found' dead => by
    cases decEq q p with
    | isTrue same =>
      subst same
      have bare := links.self timer found
      rw [found'] at bare
      have fields : timer'.bare = { timer.bare with seq := loop.timerSeq } := Option.some.inj bare
      have alive : timer'.dead = false := (congrArg Timer.dead fields).trans awake.1
      rw [alive] at dead
      cases dead
    | isFalse other =>
      have bare := links.others q other
      rw [found'] at bare
      obtain ⟨old, here, same, firing, -⟩ := bare_fields bare
      rw [firing]
      exact sound.marked q old here (same.symm.trans dead)
  handle := fun q known => by
    rw [links.fixed.2.1]
    cases decEq q p with
    | isTrue same =>
      subst same
      exact sound.handle q (by rw [found]; exact Option.some_ne_none _)
    | isFalse other =>
      exact sound.handle q (fun freed => known ((bare_none (links.others q other)).mpr freed))

/-- A timer leaves the heap, and its record is given up or marked. -/
theorem Sound.leaves (sound : Sound loop) {marked left : Loop} (start : SameArray loop marked)
    (before : ∀ q, q ≠ p → marked.memory q = loop.memory q) (unlinks : Unlinks marked p left)
    (array : SameArray left loop') (others : ∀ q, q ≠ p → loop'.memory q = left.memory q)
    (self : ∀ timer, loop'.memory p = some timer → timer.heapIndex < 0 ∧
      (timer.dead = true → timer.firing = true) ∧ 0 < p ∧ p ≤ loop'.handles)
    (handles : loop.handles ≤ loop'.handles) : Sound loop' := by
  have linked : ∀ q, Linked loop' q ↔ Linked loop q ∧ q ≠ p := fun q =>
    (array.linked q).trans ((unlinks.linked q).trans (and_congr_left' (start.linked q)))
  have kept : ∀ q, Linked left q → loop'.memory q = left.memory q := fun q inside =>
    others q ((unlinks.linked q).mp inside).2
  refine ⟨unlinks.placed.congr array kept, unlinks.heaped.congr array kept,
    fun q timer found index => ?_, fun q timer found inside => ?_, fun q timer found dead => ?_,
    fun q known => ?_⟩
  · cases decEq q p with
    | isTrue same =>
      subst same
      have := (self timer found).1
      omega
    | isFalse other =>
      refine (linked q).mpr ⟨?_, other⟩
      by_cases inside : Linked loop q
      · exact inside
      · rw [others q other, unlinks.apart q (fun held => inside ((start.linked q).mp held)) other,
          before q other] at found
        exact sound.index q timer found index
  · obtain ⟨inside', other⟩ := (linked q).mp inside
    have bare := unlinks.others q other
    rw [← others q other, found, before q other] at bare
    obtain ⟨old, here, dead, firing, -⟩ := bare_fields bare
    rw [dead, firing]
    exact sound.live q old here inside'
  · cases decEq q p with
    | isTrue same =>
      subst same
      exact (self timer found).2.1 dead
    | isFalse other =>
      have bare := unlinks.others q other
      rw [← others q other, found, before q other] at bare
      obtain ⟨old, here, same, firing, -⟩ := bare_fields bare
      rw [firing]
      exact sound.marked q old here (same.symm.trans dead)
  · cases decEq q p with
    | isTrue same =>
      subst same
      obtain ⟨timer, here⟩ := Option.ne_none_iff_exists'.mp known
      exact (self timer here).2.2
    | isFalse other =>
      have bare := unlinks.others q other
      rw [← others q other, before q other] at bare
      have old := sound.handle q (fun freed => known ((bare_none bare).mpr freed))
      omega

/-! ## Calls -/

def Firing (loop : Loop) (q : Nat) : Prop := ∃ timer, loop.memory q = some timer ∧ timer.firing = true

/-- Every timer in memory is in the heap or in its callback. -/
def Kept (loop : Loop) : Prop := ∀ q, loop.memory q ≠ none → Linked loop q ∨ Firing loop q

/-- What a call leaves of a timer that is in its callback. -/
def Rung (loop loop' : Loop) : Prop :=
  ∀ q timer, loop.memory q = some timer → timer.firing = true →
    ∃ timer', loop'.memory q = some timer' ∧ timer'.alarm = timer.alarm ∧ timer'.firing = true

theorem Rung.refl (loop : Loop) : Rung loop loop := fun _ timer found rings => ⟨timer, found, rfl, rings⟩

theorem Rung.trans {loop'' : Loop} (first : Rung loop loop') (second : Rung loop' loop'') :
    Rung loop loop'' := by
  intro q timer found rings
  obtain ⟨between, here, alarm, firing⟩ := first q timer found rings
  obtain ⟨last, there, alarm', firing'⟩ := second q between here firing
  exact ⟨last, there, alarm'.trans alarm, firing'⟩

/-- A call arms a timer that is new. -/
structure Adds (loop : Loop) (loop' : Loop) (p fireAt period : Nat) : Prop where
  arms : Arms loop p fireAt period loop'
  new : loop.handles < p ∧ p ≤ loop'.handles
  after : ∃ afterMs : UInt32, fireAt = u64 (loop.now + afterMs.toNat * 1000)
  period : ∃ periodMs : UInt32, period = periodMs.toNat * 1000

/-- What a call does to the alarms. -/
inductive Turn (loop loop' : Loop) : Prop where
  | rest (rests : Rests loop loop')
  | disarm (p : Nat) (disarms : Disarms loop p loop')
  | add (p fireAt period : Nat) (adds : Adds loop loop' p fireAt period)

structure Called (loop loop' : Loop) : Prop where
  sound : Sound loop'
  turn : Turn loop loop'
  rung : Rung loop loop'
  kept : Kept loop → Kept loop'
  calm : ∀ q, Firing loop' q → Firing loop q

theorem later_refl (loop : Loop) : Later loop loop := ⟨le_refl _, le_refl _, le_refl _, fun _ _ gone => gone⟩

theorem Sound.called_self (sound : Sound loop) : Called loop loop :=
  ⟨sound, .rest ⟨rfl, rfl, rfl, later_refl loop⟩, .refl loop, id, fun _ => id⟩

theorem cemonAfter_called (sound : Sound loop) (afterMs periodMs : UInt32) (made room : Bool) :
    Yields (· = Fault.misuse) (cemonAfter loop afterMs periodMs made room) (Called loop) := by
  unfold cemonAfter
  split
  · exact sound.called_self
  · let p := loop.handles + 1
    let timer : Timer :=
      ⟨u64 (loop.now + afterMs.toNat * 1000), periodMs.toNat * 1000, 0, -1, false, false⟩
    let fresh : Loop := { loop with handles := p }.store p timer
    have freed : loop.memory p = none := by
      by_contra known
      have := (sound.handle p known).2
      omega
    have away : ¬ Linked loop p := sound.placed.no_alarm freed
    have found : fresh.memory p = some timer := if_pos rfl
    have others : ∀ q, q ≠ p → fresh.memory q = loop.memory q := fun q other => if_neg other
    have sound' : Sound fresh := sound.put away ⟨rfl, rfl, rfl⟩ others
      (fun known here => by
        rw [found] at here
        cases here
        exact ⟨Int.negSucc_lt_zero 0, nofun, Nat.succ_pos _, le_refl _⟩) (Nat.le_succ _)
    have alarms : fresh.alarms = loop.alarms := by
      have stored : fresh.alarms = ({ loop with handles := p } : Loop).alarms := alarms_store away timer
      exact stored
    have gone : ∀ q ≤ loop.handles, loop.memory q = none → fresh.memory q = none := by
      intro q old none
      rw [others q (by omega)]
      exact none
    have rung : Rung loop fresh := by
      intro q known here rings
      refine ⟨known, ?_, rfl, rings⟩
      rw [others q (fun same => ?_)]
      · exact here
      · rw [same, freed] at here
        cases here
    show Yields _ (timerLink fresh p room >>= _) _
    rcases timerLink_ok sound'.placed sound'.heaped found away room with ⟨full, -⟩ | ⟨loop', done, links⟩
    · rw [full]
      have dropped : Sound (fresh.free p) := sound'.put away ⟨rfl, rfl, rfl⟩
        (fun q other => if_neg other) (fun known here => by simp [Loop.free] at here) (le_refl _)
      have memory : ∀ q, (fresh.free p).memory q = loop.memory q := by
        intro q
        cases decEq q p with
        | isTrue same =>
          subst same
          rw [freed]
          exact if_pos rfl
        | isFalse other => exact (if_neg other).trans (others q other)
      have dropAlarms : (fresh.free p).alarms = loop.alarms := by
        have freedAlarms : (fresh.free p).alarms = fresh.alarms := alarms_free away
        exact freedAlarms.trans alarms
      refine ⟨dropped, .rest ⟨dropAlarms, rfl, rfl, le_refl _, le_refl _,
        Nat.le_succ _, fun q _ none => (memory q).trans none⟩, fun q known here rings =>
          ⟨known, (memory q).trans here, rfl, rings⟩, fun kept q known => ?_, ?_⟩
      · rw [memory q] at known
        refine (kept q known).imp_right ?_
        rintro ⟨timer, here, rings⟩
        exact ⟨timer, (memory q).trans here, rings⟩
      · rintro q ⟨timer, here, rings⟩
        exact ⟨timer, (memory q).symm.trans here, rings⟩
    · rw [done]
      obtain ⟨seq, handles, now, -, armed⟩ := links.fixed
      have bare : ∀ q, q ≠ p → (loop'.memory q).map Timer.bare = (loop.memory q).map Timer.bare :=
        fun q other => (links.others q other).trans (by rw [others q other])
      refine ⟨sound'.links found ⟨rfl, rfl⟩ links, .add p _ _ ⟨⟨?_, ?_, seq, armed, ?_, now.ge, ?_, ?_,
        fun q old none => ?_⟩, ⟨Nat.lt_succ_self _, handles.ge⟩, ⟨afterMs, rfl⟩, ⟨periodMs, rfl⟩⟩,
        fun q known here rings => ?_, fun kept q known => ?_, ?_⟩
      · unfold Loop.alarms
        rw [if_neg away]
      · rw [links.alarms found, alarms]
        rfl
      · obtain ⟨last, here⟩ := links.placed.found ((links.linked p).mpr (.inr rfl))
        rw [here]
        exact Option.some_ne_none _
      · rw [armed]
        exact Nat.le_succ _
      · rw [handles]
        exact Nat.le_succ _
      · rw [bare_none (bare q (by omega))]
        exact none
      · obtain ⟨known', there, alarm, firing⟩ := rung q known here rings
        have other : q ≠ p := by
          intro same
          rw [same, freed] at here
          cases here
        have same := bare q other
        cases state : loop'.memory q with
        | none =>
          rw [state, here] at same
          cases same
        | some last =>
          rw [state, here] at same
          obtain ⟨-, firing, alarm⟩ := bare_eq (Option.some.inj same)
          exact ⟨last, rfl, alarm, firing.trans rings⟩
      · cases decEq q p with
        | isTrue same => exact .inl ((links.linked q).mpr (.inr same))
        | isFalse other =>
          have old : loop.memory q ≠ none := fun none => known ((bare_none (bare q other)).mpr none)
          rcases kept q old with inside | ⟨known', here, rings⟩
          · exact .inl ((links.linked q).mpr (.inl inside))
          · refine .inr ?_
            cases state : loop'.memory q with
            | none => exact absurd state known
            | some last =>
              have same := bare q other
              rw [state, here] at same
              exact ⟨last, state, (bare_eq (Option.some.inj same)).2.1.trans rings⟩
      · rintro q ⟨last, here, rings⟩
        cases decEq q p with
        | isTrue same =>
          subst same
          have bare := links.self timer found
          rw [here] at bare
          have fields : last.bare = { timer.bare with seq := fresh.timerSeq } := Option.some.inj bare
          have quiet : last.firing = false := (congrArg Timer.firing fields).trans rfl
          rw [quiet] at rings
          cases rings
        | isFalse other =>
          have same := bare q other
          rw [here] at same
          obtain ⟨old, place, -, firing, -⟩ := bare_fields same
          exact ⟨old, place, firing.symm.trans rings⟩

theorem Placed.mark {marked : Timer} (placed : Placed loop) (found : loop.memory p = some timer)
    (index : marked.heapIndex = timer.heapIndex) : Placed (loop.store p marked) := by
  refine ⟨placed.room, fun i held => ?_⟩
  obtain ⟨known, here, place⟩ := placed.held i held
  show ∃ timer, (if loop.timers i = p then some marked else loop.memory (loop.timers i)) =
    some timer ∧ timer.heapIndex = i
  split
  · rename_i same
    rw [same, found] at here
    cases here
    exact ⟨marked, rfl, index.trans place⟩
  · exact ⟨known, here, place⟩

theorem Heaped.mark {marked : Timer} (heaped : Heaped loop) (found : loop.memory p = some timer)
    (key : marked.key = timer.key) : Heaped (loop.store p marked) := by
  refine ordered_congr heaped (fun i held => ?_)
  rw [Loop.key_eq, Loop.key_eq]
  show (Option.map _ (if loop.timers i = p then some marked else loop.memory (loop.timers i))).getD _ = _
  split
  · rename_i same
    rw [same, found]
    exact key
  · rfl

/-- The index of a timer outside the heap is negative. -/
theorem Sound.index_neg (sound : Sound loop) (found : loop.memory p = some timer)
    (away : ¬ Linked loop p) : timer.heapIndex < 0 := by
  by_contra index
  exact away (sound.index p timer found (not_lt.mp index))

theorem timerUnlink_away (found : loop.memory p = some timer) (index : timer.heapIndex < 0) :
    timerUnlink loop p = .ok loop := by
  unfold timerUnlink
  rw [Loop.timer_ok found]
  show (if timer.heapIndex < 0 then _ else _) = _
  rw [if_pos index]
  rfl

theorem stop_linked (sound : Sound loop) (found : loop.memory p = some timer)
    (linked : Linked loop p) :
    ∃ left, timerUnlink (loop.store p { timer with dead := true }) p = .ok left ∧
      Called loop (left.free p) := by
  let marked : Loop := loop.store p { timer with dead := true }
  have foundMarked : marked.memory p = some { timer with dead := true } := if_pos rfl
  have others : ∀ q, q ≠ p → marked.memory q = loop.memory q := fun q other => if_neg other
  have placed : Placed marked := sound.placed.mark found rfl
  have heaped : Heaped marked := sound.heaped.mark found rfl
  obtain ⟨left, done, unlinks⟩ := timerUnlink_ok placed heaped foundMarked linked
  have away : ¬ Linked left p := fun inside => ((unlinks.linked p).mp inside).2 rfl
  have bare : ∀ q, q ≠ p →
      ((left.free p).memory q).map Timer.bare = (loop.memory q).map Timer.bare := by
    intro q other
    have freed : (left.free p).memory q = left.memory q := if_neg other
    rw [freed, unlinks.others q other, others q other]
  have gone : (left.free p).memory p = none := if_pos rfl
  have now : left.now = loop.now := by rw [unlinks.fixed]; rfl
  have armed : left.armed = loop.armed := by rw [unlinks.fixed]; rfl
  have handles : left.handles = loop.handles := by rw [unlinks.fixed]; rfl
  refine ⟨left, done, ?_, .disarm p ⟨?_, ?_, armed, now.ge, armed.ge, handles.ge, fun q _ none => ?_⟩,
    fun q known here rings => ?_, fun kept q known => ?_, ?_⟩
  · have start : SameArray loop marked := ⟨rfl, rfl, rfl⟩
    have array : SameArray left (left.free p) := ⟨rfl, rfl, rfl⟩
    have same : ∀ q, q ≠ p → (left.free p).memory q = left.memory q := fun q other => if_neg other
    exact sound.leaves start others unlinks array same
      (fun known here => by rw [gone] at here; cases here) handles.ge
  · funext q
    rw [alarms_free away, unlinks.alarms]
    cases decEq q p with
    | isTrue same =>
      subst same
      rw [Function.update_self, Function.update_self]
    | isFalse other =>
      rw [Function.update_of_ne other, Function.update_of_ne other]
      exact alarms_congr Iff.rfl (by rw [others q other])
  · show left.timerSeq = _
    rw [unlinks.fixed]
    rfl
  · cases decEq q p with
    | isTrue same => rw [same]; exact gone
    | isFalse other => exact (bare_none (bare q other)).mpr none
  · have other : q ≠ p := by
      intro same
      subst same
      rw [(sound.live q known here linked).2] at rings
      cases rings
    have same := bare q other
    rw [here] at same
    obtain ⟨last, there, -, firing, alarm⟩ := bare_fields same.symm
    exact ⟨last, there, alarm.symm, firing.symm.trans rings⟩
  · have other : q ≠ p := fun same => known (by rw [same]; exact gone)
    have same := bare q other
    rcases kept q (fun none => known ((bare_none same).mpr none)) with inside | ⟨old, here, rings⟩
    · exact .inl ((unlinks.linked q).mpr ⟨inside, other⟩)
    · rw [here] at same
      obtain ⟨last, there, -, firing, -⟩ := bare_fields same.symm
      exact .inr ⟨last, there, firing.symm.trans rings⟩
  · rintro q ⟨last, here, rings⟩
    have other : q ≠ p := by
      intro same
      rw [same, gone] at here
      cases here
    have same := bare q other
    rw [here] at same
    obtain ⟨old, place, -, firing, -⟩ := bare_fields same
    exact ⟨old, place, firing.symm.trans rings⟩

theorem stop_away (sound : Sound loop) (found : loop.memory p = some timer)
    (away : ¬ Linked loop p) (quiet : timer.firing = false) :
    Called loop ((loop.store p { timer with dead := true }).free p) := by
  let left : Loop := (loop.store p { timer with dead := true }).free p
  have others : ∀ q, q ≠ p → left.memory q = loop.memory q :=
    fun q other => (if_neg other).trans (if_neg other)
  have gone : left.memory p = none := if_pos rfl
  refine ⟨?_, .rest ⟨?_, rfl, rfl, le_refl _, le_refl _, le_refl _, fun q _ none => ?_⟩,
    fun q known here rings => ?_, fun kept q known => ?_, ?_⟩
  · have sound' : Sound left := sound.put away ⟨rfl, rfl, rfl⟩ others
      (fun known here => by rw [gone] at here; cases here) (le_refl _)
    exact sound'
  · have freed : left.alarms = (loop.store p { timer with dead := true }).alarms := alarms_free away
    exact freed.trans (alarms_store away _)
  · show left.memory q = _
    cases decEq q p with
    | isTrue same => rw [same]; exact gone
    | isFalse other => rw [others q other]; exact none
  · have other : q ≠ p := by
      intro same
      subst same
      rw [found] at here
      cases here
      rw [quiet] at rings
      cases rings
    exact ⟨known, (others q other).trans here, rfl, rings⟩
  · have other : q ≠ p := fun same => known (by rw [same]; exact gone)
    have old : loop.memory q ≠ none := fun none => known ((others q other).trans none)
    refine (kept q old).imp_right ?_
    rintro ⟨timer, here, rings⟩
    exact ⟨timer, (others q other).trans here, rings⟩
  · rintro q ⟨last, here, rings⟩
    have other : q ≠ p := by
      intro same
      rw [same] at here
      rw [gone] at here
      cases here
    exact ⟨last, (others q other).symm.trans here, rings⟩

/-- A timer that is stopped in its own callback is only marked. -/
theorem stop_firing (sound : Sound loop) (found : loop.memory p = some timer)
    (rings : timer.firing = true) : Called loop (loop.store p { timer with dead := true }) := by
  have away : ¬ Linked loop p := by
    intro linked
    rw [(sound.live p timer found linked).2] at rings
    cases rings
  have index := sound.index_neg found away
  let marked : Loop := loop.store p { timer with dead := true }
  have others : ∀ q, q ≠ p → marked.memory q = loop.memory q := fun q other => if_neg other
  have here : marked.memory p = some { timer with dead := true } := if_pos rfl
  refine ⟨?_, .rest ⟨alarms_store away _, rfl, rfl, le_refl _, le_refl _, le_refl _, fun q _ none => ?_⟩,
    fun q known place firing => ?_, fun kept q known => ?_, ?_⟩
  · have sound' : Sound marked := sound.put away ⟨rfl, rfl, rfl⟩ others (fun known place => by
      rw [here] at place
      cases place
      exact ⟨index, fun _ => rings, sound.handle p (by rw [found]; exact Option.some_ne_none _)⟩) (le_refl _)
    exact sound'
  · show marked.memory q = _
    have other : q ≠ p := by
      intro same
      rw [same, found] at none
      cases none
    rw [others q other]
    exact none
  · cases decEq q p with
    | isTrue same =>
      subst same
      rw [found] at place
      cases place
      exact ⟨_, here, rfl, firing⟩
    | isFalse other => exact ⟨known, (others q other).trans place, rfl, firing⟩
  · cases decEq q p with
    | isTrue same =>
      subst same
      exact .inr ⟨_, here, rings⟩
    | isFalse other =>
      have old : loop.memory q ≠ none := fun none => known ((others q other).trans none)
      refine (kept q old).imp_right ?_
      rintro ⟨timer, place, firing⟩
      exact ⟨timer, (others q other).trans place, firing⟩
  · rintro q ⟨last, place, firing⟩
    cases decEq q p with
    | isTrue same => exact ⟨timer, by rw [same]; exact found, rings⟩
    | isFalse other => exact ⟨last, (others q other).symm.trans place, firing⟩

theorem cemonTimerStop_called (sound : Sound loop) (p : Nat) :
    Yields (· = Fault.misuse) (cemonTimerStop loop p) (Called loop) := by
  unfold cemonTimerStop
  split
  · exact rfl
  · rename_i timer found
    split
    · exact sound.called_self
    · split
      · rename_i rings
        exact stop_firing sound found rings
      · rename_i quiet
        by_cases linked : Linked loop p
        · obtain ⟨left, done, called⟩ := stop_linked sound found linked
          exact Yields.ok_bind done called
        · have index := sound.index_neg found linked
          have here : (loop.store p { timer with dead := true }).memory p =
              some { timer with dead := true } := if_pos rfl
          have stays := timerUnlink_away here index
          exact Yields.ok_bind stays
            (stop_away sound found linked (Bool.eq_false_iff.mpr quiet))

theorem call_called (sound : Sound loop) (call : Call) :
    Yields (· = Fault.misuse) (loop.call call) (Called loop) := by
  cases call with
  | after afterMs periodMs made room => exact cemonAfter_called sound afterMs periodMs made room
  | stop p => exact cemonTimerStop_called sound p
  | requestStop =>
    exact ⟨⟨⟨sound.placed.room, sound.placed.held⟩, sound.heaped, sound.index, sound.live,
      sound.marked, sound.handle⟩, .rest ⟨rfl, rfl, rfl, le_refl _, le_refl _, le_refl _, fun _ _ gone => gone⟩,
      .refl loop, id, fun _ => id⟩
  | wait us =>
    exact ⟨⟨⟨sound.placed.room, sound.placed.held⟩, sound.heaped, sound.index, sound.live,
      sound.marked, sound.handle⟩, .rest ⟨rfl, rfl, rfl, Nat.le_add_right _ _, le_refl _, le_refl _, fun _ _ gone => gone⟩,
      .refl loop, id, fun _ => id⟩

/-! ## Moves of a run -/

variable {run run' : Run}

/-- What a run is made of: calls, timers that fire, and timers that are armed again after
their callbacks. -/
inductive Moves (run : Run) : Run → Prop where
  | call {loop' : Loop} (turn : Turn run.loop loop') : Moves run ⟨loop', run.fired⟩
  | ring {loop' : Loop} (p : Nat) (alarm : Alarm) (set : run.loop.alarms p = some alarm)
      (due : alarm.fireAt ≤ run.loop.now)
      (first : ∀ q other, run.loop.alarms q = some other → alarm.key ≤ other.key)
      (disarms : Disarms run.loop p loop') :
      Moves run ⟨loop', run.fired ++ [⟨p, alarm.fireAt, alarm.period, alarm.seq, run.loop.now⟩]⟩
  | again {loop' : Loop} (before : List Fire) (fire : Fire) (last : run.fired = before ++ [fire])
      (periodic : 0 < fire.period)
      (arms : Arms run.loop fire.timer (timerRepeatAt fire.fireAt fire.period run.loop.now)
        fire.period loop') : Moves run ⟨loop', run.fired⟩

abbrev MovesOn : Run → Run → Prop := Relation.ReflTransGen Moves

/-- What the calls of a callback leave. -/
structure Went (loop loop' : Loop) : Prop where
  sound : Sound loop'
  moves : ∀ fired, MovesOn ⟨loop, fired⟩ ⟨loop', fired⟩
  rung : Rung loop loop'
  kept : Kept loop → Kept loop'
  calm : ∀ q, Firing loop' q → Firing loop q

theorem Called.went (called : Called loop loop') : Went loop loop' :=
  ⟨called.sound, fun _ => .single (.call called.turn), called.rung, called.kept, called.calm⟩

theorem Went.trans {loop'' : Loop} (first : Went loop loop') (second : Went loop' loop'') :
    Went loop loop'' where
  sound := second.sound
  moves := fun fired => (first.moves fired).trans (second.moves fired)
  rung := first.rung.trans second.rung
  kept := fun kept => second.kept (first.kept kept)
  calm := fun q firing => first.calm q (second.calm q firing)

theorem calls_went (sound : Sound loop) (calls : List Call) :
    Yields (· = Fault.misuse) (loop.calls calls) (Went loop) := by
  unfold Loop.calls
  induction calls generalizing loop with
  | nil => exact ⟨sound, fun _ => .refl, .refl loop, id, fun _ => id⟩
  | cons call rest ih =>
    rw [List.foldlM_cons]
    exact (call_called sound call).bind (fun between called =>
      (ih called.sound).mono (fun last went => called.went.trans went))

/-! ## Callbacks -/

/-- No timer is in its callback. -/
def Quiet (loop : Loop) : Prop := ∀ q, ¬ Firing loop q

/-- Another record for a timer outside the heap, or none. -/
structure Replaced (loop : Loop) (p : Nat) (loop' : Loop) : Prop where
  away : ¬ Linked loop p
  array : SameArray loop loop'
  others : ∀ q, q ≠ p → loop'.memory q = loop.memory q
  self : ∀ timer, loop'.memory p = some timer →
    timer.heapIndex < 0 ∧ timer.firing = false ∧ timer.dead = false
  rest : loop'.timerSeq = loop.timerSeq ∧ loop'.now = loop.now ∧ loop'.armed = loop.armed ∧
    loop'.handles = loop.handles ∧ loop'.mailboxOpen = loop.mailboxOpen

theorem Replaced.sound (replaced : Replaced loop p loop') (sound : Sound loop)
    (known : loop.memory p ≠ none) : Sound loop' := by
  have handle := sound.handle p known
  refine sound.put replaced.away replaced.array replaced.others (fun timer here =>
    ⟨(replaced.self timer here).1, fun dead => ?_, ?_⟩) replaced.rest.2.2.2.1.ge
  · rw [(replaced.self timer here).2.2] at dead
    cases dead
  · rw [replaced.rest.2.2.2.1]
    exact handle

theorem Replaced.alarms (replaced : Replaced loop p loop') : loop'.alarms = loop.alarms := by
  funext q
  unfold Loop.alarms
  simp only [replaced.array.linked q]
  split
  · rename_i inside
    rw [replaced.others q (fun same => replaced.away (same ▸ inside))]
  · rfl

theorem Replaced.quiet (replaced : Replaced loop p loop') (only : ∀ q, Firing loop q → q = p) :
    Quiet loop' := by
  rintro q ⟨timer, here, rings⟩
  cases decEq q p with
  | isTrue same =>
    subst same
    rw [(replaced.self timer here).2.1] at rings
    cases rings
  | isFalse other =>
    exact other (only q ⟨timer, (replaced.others q other).symm.trans here, rings⟩)

/-- What arming a timer again, or giving it up, leaves. -/
structure Rearmed (loop : Loop) (fire : Fire) (room : Bool) (loop' : Loop) : Prop where
  sound : Sound loop'
  quiet : Quiet loop'
  moves : ∀ before, MovesOn ⟨loop, before ++ [fire]⟩ ⟨loop', before ++ [fire]⟩
  kept : room = true → Kept loop → Kept loop'

theorem Replaced.kept (replaced : Replaced loop p loop') (freed : loop'.memory p = none)
    (kept : Kept loop) : Kept loop' := by
  intro q known
  have other : q ≠ p := by
    intro same
    rw [same] at known
    exact known freed
  rw [replaced.others q other] at known
  rcases kept q known with inside | ⟨timer, here, rings⟩
  · exact .inl ((replaced.array.linked q).mpr inside)
  · exact .inr ⟨timer, (replaced.others q other).trans here, rings⟩

theorem Replaced.moves (replaced : Replaced loop p loop') (fired : List Fire)
    (gone : ∀ q ≤ loop.handles, loop.memory q = none → loop'.memory q = none) :
    MovesOn ⟨loop, fired⟩ ⟨loop', fired⟩ :=
  .single (.call (.rest ⟨replaced.alarms, replaced.rest.1, replaced.rest.2.2.1, replaced.rest.2.1.ge,
    replaced.rest.2.2.1.ge, replaced.rest.2.2.2.1.ge, gone⟩))

theorem timerRearm_ok (sound : Sound loop) (found : loop.memory p = some timer)
    (rings : timer.firing = true) (only : ∀ q, Firing loop q → q = p) (seq now : Nat) (room : Bool) :
    ∃ loop', timerRearm loop p room = .ok loop' ∧
      Rearmed loop ⟨p, timer.fireAt, timer.period, seq, now⟩ room loop' := by
  have away : ¬ Linked loop p := by
    intro linked
    rw [(sound.live p timer found linked).2] at rings
    cases rings
  have known : loop.memory p ≠ none := by
    rw [found]
    exact Option.some_ne_none _
  have index := sound.index_neg found away
  by_cases ends : (timer.dead || timer.period = 0 || !loop.mailboxOpen) = true
  · let freed : Loop := (loop.store p { timer with firing := false }).free p
    have none : freed.memory p = none := if_pos rfl
    have replaced : Replaced loop p freed := ⟨away, ⟨rfl, rfl, rfl⟩,
      fun q other => (if_neg other).trans (if_neg other),
      (fun known here => by rw [none] at here; cases here), rfl, rfl, rfl, rfl, rfl⟩
    refine ⟨freed, ?_, replaced.sound sound known, replaced.quiet only,
      fun before => replaced.moves _ (fun q _ gone => ?_), fun _ => replaced.kept none⟩
    · unfold timerRearm
      rw [Loop.timer_ok found]
      show (if (timer.dead || timer.period = 0 || !loop.mailboxOpen) = true then _ else _) = _
      rw [if_pos ends]
      rfl
    · cases decEq q p with
      | isTrue same =>
        subst same
        exact none
      | isFalse other => exact (replaced.others q other).trans gone
  · let next : Timer := { timer with
      firing := false
      fireAt := timerRepeatAt timer.fireAt timer.period loop.now }
    let ready : Loop := (loop.store p { timer with firing := false }).store p next
    have foundNext : ready.memory p = some next := if_pos rfl
    have going := ends
    simp only [Bool.or_eq_true, decide_eq_true_eq, Bool.not_eq_true', not_or] at going
    obtain ⟨⟨alive, periodic⟩, -⟩ := going
    have replaced : Replaced loop p ready := ⟨away, ⟨rfl, rfl, rfl⟩,
      fun q other => (if_neg other).trans (if_neg other),
      (fun known here => by
        rw [foundNext] at here
        cases here
        exact ⟨index, rfl, Bool.eq_false_iff.mpr alive⟩), rfl, rfl, rfl, rfl, rfl⟩
    have sound' : Sound ready := replaced.sound sound known
    have unfolded : timerRearm loop p room =
        (timerLink ready p room >>= fun linked => pure (linked.getD ready)) := by
      unfold timerRearm
      rw [Loop.timer_ok found]
      show (if (timer.dead || timer.period = 0 || !loop.mailboxOpen) = true then _ else _) = _
      rw [if_neg ends]
      rfl
    have gone : ∀ q ≤ loop.handles, loop.memory q = none → ready.memory q = none := by
      intro q _ gone
      have other : q ≠ p := by
        intro same
        rw [same, found] at gone
        cases gone
      exact (replaced.others q other).trans gone
    rw [unfolded]
    rcases timerLink_ok sound'.placed sound'.heaped foundNext away room with
      ⟨full, tight⟩ | ⟨loop', done, links⟩
    · rw [full]
      refine ⟨ready, rfl, sound', replaced.quiet only, fun before => replaced.moves _ gone,
        fun given => ?_⟩
      rw [tight] at given
      cases given
    · rw [done]
      obtain ⟨seqs, handles, clock, -, armed⟩ := links.fixed
      have bare : ∀ q, q ≠ p → (loop'.memory q).map Timer.bare = (loop.memory q).map Timer.bare :=
        fun q other => (links.others q other).trans (by rw [replaced.others q other])
      refine ⟨loop', rfl, sound'.links foundNext ⟨Bool.eq_false_iff.mpr alive, rfl⟩ links, ?_,
        fun before => .single (.again before _ rfl (Nat.pos_of_ne_zero periodic)
          ⟨?_, ?_, seqs, armed, ?_, clock.ge, ?_, handles.ge, fun q old none => ?_⟩),
        fun _ kept q present => ?_⟩
      · rintro q ⟨last, here, firing⟩
        have ready' := replaced.quiet only
        cases decEq q p with
        | isTrue same =>
          subst same
          have self := links.self next foundNext
          rw [here] at self
          have fields : last.bare = { next.bare with seq := ready.timerSeq } := Option.some.inj self
          have quiet : last.firing = false := (congrArg Timer.firing fields).trans rfl
          rw [quiet] at firing
          cases firing
        | isFalse other =>
          have same := links.others q other
          rw [here] at same
          obtain ⟨old, place, -, rung, -⟩ := bare_fields same
          exact ready' q ⟨old, place, rung.symm.trans firing⟩
      · unfold Loop.alarms
        rw [if_neg away]
      · rw [links.alarms foundNext, replaced.alarms]
        rfl
      · obtain ⟨last, here⟩ := links.placed.found ((links.linked p).mpr (.inr rfl))
        rw [here]
        exact Option.some_ne_none _
      · rw [armed]
        exact Nat.le_succ _
      · have other : q ≠ p := by
          intro same
          rw [same, found] at none
          cases none
        exact (bare_none (bare q other)).mpr none
      · cases decEq q p with
        | isTrue same => exact .inl ((links.linked q).mpr (.inr same))
        | isFalse other =>
          have old : loop.memory q ≠ none := fun none => present ((bare_none (bare q other)).mpr none)
          rcases kept q old with inside | ringing
          · exact .inl ((links.linked q).mpr (.inl ((replaced.array.linked q).mpr inside)))
          · exact absurd (only q ringing) other

/-- The first cell has the alarm that is before all others. -/
theorem Sound.first (sound : Sound loop) (some : 0 < loop.timerCount) :
    ∃ timer, loop.memory (loop.timers 0) = Option.some timer ∧
      loop.alarms (loop.timers 0) = Option.some timer.alarm ∧
        ∀ q other, loop.alarms q = Option.some other → timer.alarm.key ≤ other.key := by
  obtain ⟨timer, found, -⟩ := sound.placed.held 0 some
  have set : loop.alarms (loop.timers 0) = Option.some timer.alarm := by
    unfold Loop.alarms
    rw [if_pos ⟨0, some, rfl⟩, found]
    rfl
  refine ⟨timer, found, set, fun q other here => ?_⟩
  rw [← alarms_key set, ← alarms_key here]
  obtain ⟨⟨i, held, rfl⟩, -⟩ := alarms_some here
  exact Ordered.root sound.heaped held

/-- The due check looks at the first cell only, and finds a due alarm whenever one is set. -/
theorem timerDue_ok (sound : Sound loop) : ∃ due, timerDue loop = .ok due ∧
    (due = true ↔ ∃ q alarm, loop.alarms q = some alarm ∧ alarm.fireAt ≤ loop.now) := by
  unfold timerDue
  cases decEq loop.timerCount 0 with
  | isTrue empty =>
    rw [if_pos empty]
    refine ⟨false, rfl, (fun set => by cases set), ?_⟩
    rintro ⟨q, alarm, set, -⟩
    obtain ⟨⟨i, held, -⟩, -⟩ := alarms_some set
    omega
  | isFalse some =>
    rw [if_neg some]
    obtain ⟨timer, found, set, first⟩ := sound.first (Nat.pos_of_ne_zero some)
    refine ⟨decide (timer.fireAt ≤ loop.now), ?_, ?_⟩
    · rw [sound.placed.cell_ok (Nat.pos_of_ne_zero some)]
      show (loop.timer (loop.timers 0) >>= _) = _
      rw [Loop.timer_ok found]
      rfl
    · rw [decide_eq_true_eq]
      constructor
      · exact fun due => ⟨_, _, set, due⟩
      · rintro ⟨q, alarm, here, due⟩
        have before := first q alarm here
        have less : timer.alarm.fireAt ≤ alarm.fireAt := by
          rcases Prod.Lex.toLex_le_toLex.mp before with early | ⟨same, -⟩
          · exact early.le
          · exact same.le
        exact less.trans due

/-- What a phase leaves, with the timers that it let fire. -/
structure Phased (loop : Loop) (ample : Prop) (loop' : Loop) (fired : List Fire) : Prop where
  sound : Sound loop'
  quiet : Quiet loop'
  moves : ∀ before, MovesOn ⟨loop, before⟩ ⟨loop', before ++ fired⟩
  kept : ample → Kept loop → Kept loop'

theorem timerPhaseStep_ok (sound : Sound loop) (quiet : Quiet loop)
    (due : timerDue loop = .ok true) (callback : Callback) :
    Yields (· = Fault.misuse) (timerPhaseStep loop callback)
      (fun done => Phased loop (callback.room = true) done.1 done.2) := by
  obtain ⟨found', isDue, exact'⟩ := timerDue_ok sound
  rw [isDue] at due
  cases due
  have some : 0 < loop.timerCount := by
    obtain ⟨q, alarm, set, -⟩ := exact'.mp rfl
    obtain ⟨⟨i, held, -⟩, -⟩ := alarms_some set
    omega
  obtain ⟨timer, found, set, first⟩ := sound.first some
  have late : timer.alarm.fireAt ≤ loop.now := by
    obtain ⟨q, alarm, here, due⟩ := exact'.mp rfl
    have before := first q alarm here
    rcases Prod.Lex.toLex_le_toLex.mp before with early | ⟨same, -⟩
    · exact early.le.trans due
    · exact same.le.trans due
  have linked : Linked loop (loop.timers 0) := ⟨0, some, rfl⟩
  generalize here : loop.timers 0 = p at found set linked
  obtain ⟨left, done, unlinks⟩ := timerUnlink_ok sound.placed sound.heaped found linked
  have awake := sound.live p timer found linked
  have foundLeft : left.memory p = Option.some { timer with heapIndex := -1 } :=
    unlinks.self timer found
  let ringing : Loop := left.store p { timer with heapIndex := -1, firing := true }
  have foundRinging : ringing.memory p =
      Option.some { timer with heapIndex := -1, firing := true } := if_pos rfl
  have others : ∀ q, q ≠ p → ringing.memory q = left.memory q := fun q other => if_neg other
  have fixed : left.timerSeq = loop.timerSeq ∧ left.now = loop.now ∧ left.armed = loop.armed ∧
      left.handles = loop.handles := by
    rw [unlinks.fixed]
    exact ⟨rfl, rfl, rfl, rfl⟩
  have awayLeft : ¬ Linked left p := fun inside => ((unlinks.linked p).mp inside).2 rfl
  have start : SameArray loop loop := ⟨rfl, rfl, rfl⟩
  have array : SameArray left ringing := ⟨rfl, rfl, rfl⟩
  have sound' : Sound ringing := sound.leaves start (fun _ _ => rfl) unlinks array others
    (fun known place => by
      rw [foundRinging] at place
      cases place
      have handle := sound.handle p (by rw [found]; exact Option.some_ne_none _)
      refine ⟨Int.negSucc_lt_zero 0, fun _ => rfl, handle.1, ?_⟩
      show p ≤ left.handles
      rw [fixed.2.2.2]
      exact handle.2) fixed.2.2.2.ge
  have bare : ∀ q, q ≠ p → (ringing.memory q).map Timer.bare = (loop.memory q).map Timer.bare :=
    fun q other => by rw [others q other, unlinks.others q other]
  have disarms : Disarms loop p ringing := by
    refine ⟨?_, fixed.1, fixed.2.2.1, fixed.2.1.ge, fixed.2.2.1.ge, fixed.2.2.2.ge, fun q _ none => ?_⟩
    · have stored : ringing.alarms = left.alarms := alarms_store awayLeft _
      exact stored.trans unlinks.alarms
    · have other : q ≠ p := by
        intro same
        rw [same, found] at none
        cases none
      exact (bare_none (bare q other)).mpr none
  have only : ∀ q, Firing ringing q → q = p := by
    rintro q ⟨known, place, rings⟩
    by_contra other
    have same := bare q other
    rw [place] at same
    obtain ⟨old, before, -, firing, -⟩ := bare_fields same
    exact quiet q ⟨old, before, firing.symm.trans rings⟩
  have unfolded : timerPhaseStep loop callback = (ringing.calls callback.calls >>= fun after =>
      timerRearm after p callback.room >>= fun last => pure (last,
        [⟨p, timer.fireAt, timer.period, timer.seq, left.now⟩])) := by
    unfold timerPhaseStep
    rw [sound.placed.cell_ok some, here]
    show (timerUnlink loop p >>= _) = _
    rw [done]
    show (left.timer p >>= _) = _
    rw [Loop.timer_ok foundLeft]
    show (if timer.dead = true then _ else _) = _
    rw [if_neg (by rw [awake.1]; exact Bool.false_ne_true)]
  rw [unfolded]
  refine (calls_went sound' callback.calls).bind (fun after went => ?_)
  obtain ⟨later, foundLater, alarm, rings⟩ := went.rung p _ foundRinging rfl
  obtain ⟨last, finished, rearmed⟩ := timerRearm_ok went.sound foundLater rings
    (fun q firing => only q (went.calm q firing)) timer.seq loop.now callback.room
  rw [finished]
  have fireAt : later.fireAt = timer.fireAt := congrArg Alarm.fireAt alarm
  have period : later.period = timer.period := congrArg Alarm.period alarm
  rw [fireAt, period] at rearmed
  refine ⟨rearmed.sound, rearmed.quiet, fun before => ?_, fun room kept =>
    rearmed.kept room (went.kept (fun q known => ?_))⟩
  · show MovesOn ⟨loop, before⟩ ⟨last, before ++ [⟨p, timer.fireAt, timer.period, timer.seq, left.now⟩]⟩
    rw [fixed.2.1]
    have ring : Moves ⟨loop, before⟩
        ⟨ringing, before ++ [⟨p, timer.fireAt, timer.period, timer.seq, loop.now⟩]⟩ :=
      .ring p timer.alarm set late first disarms
    exact .head ring ((went.moves _).trans (rearmed.moves before))
  · cases decEq q p with
    | isTrue same => exact .inr ⟨_, by rw [same]; exact foundRinging, rfl⟩
    | isFalse other =>
      have old : loop.memory q ≠ none := fun none => known ((bare_none (bare q other)).mpr none)
      rcases kept q old with inside | ringing'
      · exact .inl ((array.linked q).mpr ((unlinks.linked q).mpr ⟨inside, other⟩))
      · exact absurd ringing' (quiet q)

/-! ## Phases and steps -/

theorem Sound.phased_self (sound : Sound loop) (quiet : Quiet loop) (ample : Prop) :
    Phased loop ample loop [] :=
  ⟨sound, quiet, fun before => by rw [List.append_nil], fun _ kept => kept⟩

theorem Phased.mono {ample ample' : Prop} {fired : List Fire}
    (phased : Phased loop ample loop' fired) (stronger : ample' → ample) :
    Phased loop ample' loop' fired :=
  { phased with kept := fun given => phased.kept (stronger given) }

theorem Phased.trans {ample : Prop} {loop'' : Loop} {fired fired' : List Fire}
    (first : Phased loop ample loop' fired) (second : Phased loop' ample loop'' fired') :
    Phased loop ample loop'' (fired ++ fired') where
  sound := second.sound
  quiet := second.quiet
  moves := fun before => by
    have rest := second.moves (before ++ fired)
    rw [List.append_assoc] at rest
    exact (first.moves before).trans rest
  kept := fun given kept => second.kept given (first.kept given kept)

theorem Went.phased (went : Went loop loop') (quiet : Quiet loop) (ample : Prop) :
    Phased loop ample loop' [] where
  sound := went.sound
  quiet := fun q firing => quiet q (went.calm q firing)
  moves := fun before => by
    rw [List.append_nil]
    exact went.moves before
  kept := fun _ kept => went.kept kept

/-- No alarm that is set is due. -/
def Drained (loop : Loop) : Prop := ∀ q alarm, loop.alarms q = some alarm → loop.now < alarm.fireAt

theorem runTimerPhase_ok (rounds : Nat → Round) (budget : Nat) (sound : Sound loop)
    (quiet : Quiet loop) :
    Yields (· = Fault.misuse) (runTimerPhase rounds budget loop) (fun done =>
      Phased loop (∀ n, (rounds n).callback.room = true) done.1 done.2.1 ∧
        (1 < done.2.2 ∨ (done.2.2 = 1 ∧ ∀ n, (rounds n).tailReady = false) → Drained done.1)) := by
  induction budget generalizing loop with
  | zero => exact ⟨sound.phased_self quiet _, fun left => by simp at left⟩
  | succ budget ih =>
    let waited : Loop := { loop with now := loop.now + (rounds budget).idle }
    have went : Went loop waited :=
      (Yields.of_ok (call_called sound (.wait (rounds budget).idle)) rfl).went
    have start := went.phased quiet (∀ n, (rounds n).callback.room = true)
    obtain ⟨due, isDue, exact'⟩ := timerDue_ok went.sound
    have unfolded : runTimerPhase rounds (budget + 1) loop = (if due = true then
        if (budget = 0 && (rounds budget).tailReady) = true then pure (waited, [], 1)
        else timerPhaseStep waited (rounds budget).callback >>= fun first =>
          runTimerPhase rounds budget first.1 >>= fun rest =>
            pure (rest.1, first.2 ++ rest.2.1, rest.2.2)
      else pure (waited, [], budget + 1)) := by
      show (timerDue waited >>= _) = _
      rw [isDue]
      rfl
    rw [unfolded]
    cases due with
    | false =>
      refine ⟨start, fun _ q alarm set => ?_⟩
      by_contra late
      exact absurd (exact'.mpr ⟨q, alarm, set, not_lt.mp late⟩) Bool.false_ne_true
    | true =>
      rw [if_pos rfl]
      split
      · rename_i cut
        refine ⟨start, fun left => ?_⟩
        simp only [Bool.and_eq_true, decide_eq_true_eq] at cut
        rcases left with many | ⟨-, idle⟩
        · exact absurd many (lt_irrefl 1)
        · rw [idle budget] at cut
          exact absurd cut.2 Bool.false_ne_true
      · have step := timerPhaseStep_ok start.sound start.quiet isDue (rounds budget).callback
        refine step.bind (fun first phased => ?_)
        refine (ih phased.sound phased.quiet).bind (fun rest done => ?_)
        exact ⟨(start.trans (phased.mono (fun given => given budget))).trans done.1, done.2⟩

theorem clear_step (sound : Sound loop) (quiet : Quiet loop) {count : Nat}
    (size : loop.timerCount = count + 1) :
    ∃ p loop', p ≠ 0 ∧ Loop.cell { loop with timerCount := count } count = .ok p ∧
      Loop.setCell { loop with timerCount := count } count 0 = .ok loop' ∧
        Phased loop True (loop'.free p) [] ∧ (loop'.free p).timerCount = count := by
  have held : count < loop.timerCount := by omega
  have inCap : count < loop.timerCap := held.trans_le sound.placed.room
  obtain ⟨timer, found, -⟩ := sound.placed.held count held
  let p := loop.timers count
  let cut : Loop := { loop with
    timerCount := count
    timers := fun j => if j = count then 0 else loop.timers j }
  have handle := sound.handle p (by rw [found]; exact Option.some_ne_none _)
  have same : ∀ i < count, cut.timers i = loop.timers i := fun i inside => if_neg (by omega)
  have others : ∀ q, q ≠ p → (cut.free p).memory q = loop.memory q := fun q other => if_neg other
  have gone : (cut.free p).memory p = none := if_pos rfl
  have distinct : ∀ i < count, loop.timers i ≠ p := by
    intro i inside here
    have := sound.placed.inj (by omega) held here
    omega
  have linked : ∀ q, Linked (cut.free p) q ↔ Linked loop q ∧ q ≠ p := by
    intro q
    constructor
    · rintro ⟨i, inside, rfl⟩
      have inside' : i < count := inside
      have cell : (cut.free p).timers i = loop.timers i := same i inside'
      rw [cell]
      exact ⟨⟨i, by omega, rfl⟩, distinct i inside'⟩
    · rintro ⟨⟨i, inside, rfl⟩, other⟩
      have apart : i ≠ count := fun last => other (by rw [last])
      have inside' : i < count := by omega
      exact ⟨i, inside', same i inside'⟩
  have sound' : Sound (cut.free p) := by
    refine ⟨⟨inCap.le, fun i inside => ?_⟩, ?_, fun q known here index => ?_,
      fun q known here inside => ?_, fun q known here dead => ?_, fun q known => ?_⟩
    · have inside' : i < count := inside
      have cell : (cut.free p).timers i = loop.timers i := same i inside'
      rw [cell, others _ (distinct i inside')]
      exact sound.placed.held i (by omega)
    · refine ordered_congr (ordered_shrink sound.heaped held.le) (fun i inside => ?_)
      have inside' : i < count := inside
      have cell : (cut.free p).timers i = loop.timers i := same i inside'
      unfold Loop.key
      rw [cell, others _ (distinct i inside')]
    · have other : q ≠ p := by
        intro isP
        rw [isP, gone] at here
        cases here
      rw [others q other] at here
      exact (linked q).mpr ⟨sound.index q known here index, other⟩
    · obtain ⟨inside', other⟩ := (linked q).mp inside
      rw [others q other] at here
      exact sound.live q known here inside'
    · have other : q ≠ p := by
        intro isP
        rw [isP, gone] at here
        cases here
      rw [others q other] at here
      exact sound.marked q known here dead
    · have other : q ≠ p := fun isP => known (by rw [isP]; exact gone)
      rw [others q other] at known
      exact sound.handle q known
  have alarms : (cut.free p).alarms = Function.update loop.alarms p none := by
    funext q
    cases decEq q p with
    | isTrue isP =>
      subst isP
      rw [Function.update_self]
      unfold Loop.alarms
      rw [if_neg (fun inside => ((linked _).mp inside).2 rfl)]
    | isFalse other =>
      rw [Function.update_of_ne other]
      refine alarms_congr ((linked q).trans ?_) (by rw [others q other])
      simp [other]
  refine ⟨p, cut, handle.1.ne', if_pos inCap, if_pos inCap, ⟨sound', ?_, fun before => ?_,
    fun _ kept q known => ?_⟩, rfl⟩
  · rintro q ⟨known, here, rings⟩
    have other : q ≠ p := by
      intro isP
      rw [isP, gone] at here
      cases here
    exact quiet q ⟨known, (others q other).symm.trans here, rings⟩
  · rw [List.append_nil]
    refine .single (.call (.disarm p ⟨alarms, rfl, rfl, le_refl _, le_refl _, le_refl _, fun q _ none => ?_⟩))
    show (cut.free p).memory q = _
    cases decEq q p with
    | isTrue isP => rw [isP]; exact gone
    | isFalse other => rw [others q other]; exact none
  · have other : q ≠ p := fun isP => known (by rw [isP]; exact gone)
    have old : loop.memory q ≠ none := fun none => known ((others q other).trans none)
    rcases kept q old with inside | ringing
    · exact .inl ((linked q).mpr ⟨inside, other⟩)
    · exact absurd ringing (quiet q)

theorem timerClear_ok {count : Nat} (sound : Sound loop) (quiet : Quiet loop)
    (size : loop.timerCount = count) :
    Yields (· = Fault.misuse) (timerClear count loop) (fun loop' => Phased loop True loop' []) := by
  induction count generalizing loop with
  | zero => exact sound.phased_self quiet _
  | succ count ih =>
    obtain ⟨p, cut, valid, cell, cleared, phased, left⟩ := clear_step sound quiet size
    have unfolded : timerClear (count + 1) loop = timerClear count (cut.free p) := by
      show (Loop.cell _ count >>= _) = _
      rw [cell]
      show (Loop.setCell _ count 0 >>= _) = _
      rw [cleared]
      show timerClear count (if p ≠ 0 then cut.free p else cut) = _
      rw [if_pos valid]
    rw [unfolded]
    exact (ih phased.sound phased.quiet left).mono (fun last rest => phased.trans rest)

/-- After a callback the array may always grow. -/
def Ample : Op → Prop
  | .phase _ rounds => ∀ n, (rounds n).callback.room = true
  | _ => True

/-- What a step leaves. -/
structure Stepped (ample : Prop) (run run' : Run) : Prop where
  sound : Sound run'.loop
  quiet : Quiet run'.loop
  moves : MovesOn run run'
  kept : ample → Kept run.loop → Kept run'.loop

theorem step_ok (sound : Sound run.loop) (quiet : Quiet run.loop) (op : Op) :
    Yields (· = Fault.misuse) (run.step op) (Stepped (Ample op) run) := by
  cases op with
  | call call =>
    refine (call_called sound call).bind (fun loop' called => ?_)
    exact ⟨called.sound, fun q firing => quiet q (called.calm q firing), called.went.moves _,
      fun _ kept => called.kept kept⟩
  | phase budget rounds =>
    refine (runTimerPhase_ok rounds budget sound quiet).bind (fun done phased => ?_)
    exact ⟨phased.1.sound, phased.1.quiet, phased.1.moves _, phased.1.kept⟩
  | beginStop =>
    have called : Called run.loop { run.loop with mailboxOpen := false } :=
      Yields.of_ok (call_called sound .requestStop) rfl
    have start := called.went.phased quiet True
    refine (timerClear_ok start.sound start.quiet rfl).bind (fun loop' phased => ?_)
    have whole := start.trans phased
    have moves := whole.moves run.fired
    rw [List.append_nil, List.append_nil] at moves
    exact ⟨whole.sound, whole.quiet, moves, whole.kept⟩

end Kynovo.Event
