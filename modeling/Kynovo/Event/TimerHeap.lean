import Kynovo.Event.Timers
import Kynovo.Lib.Outcome

/-! The heap of the timers. A linked timer is where its own index says, and the array is
ordered by due time, then by the order of arming. -/
namespace Kynovo.Event
open Kynovo.Lib.BinaryHeap
open Kynovo.Lib.Outcome

variable {loop loop' : Loop} {p idx : Nat} {timer : Timer}

/-- What timers are ordered by. -/
def Timer.key (timer : Timer) : ℕ ×ₗ ℕ := toLex (timer.fireAt, timer.seq)

def Loop.key (loop : Loop) (p : Nat) : ℕ ×ₗ ℕ :=
  match loop.memory p with
  | some timer => timer.key
  | none => toLex (0, 0)

def Linked (loop : Loop) (p : Nat) : Prop := ∃ i < loop.timerCount, loop.timers i = p

/-- Each cell in use holds a timer that knows its place. -/
structure Placed (loop : Loop) : Prop where
  room : loop.timerCount ≤ loop.timerCap
  held : ∀ i < loop.timerCount, ∃ timer, loop.memory (loop.timers i) = some timer ∧
    timer.heapIndex = i

theorem Placed.inj (placed : Placed loop) {i j : Nat} (held : i < loop.timerCount)
    (held' : j < loop.timerCount) (same : loop.timers i = loop.timers j) : i = j := by
  obtain ⟨timer, found, index⟩ := placed.held i held
  obtain ⟨timer', found', index'⟩ := placed.held j held'
  rw [same, found'] at found
  cases found
  omega

theorem Loop.timer_ok (found : loop.memory p = some timer) : loop.timer p = .ok timer := by
  simp [Loop.timer, found]

theorem Placed.cell_ok (placed : Placed loop) {i : Nat} (held : i < loop.timerCount) :
    loop.cell i = .ok (loop.timers i) := by
  have inside : i < loop.timerCap := held.trans_le placed.room
  simp [Loop.cell, inside]

theorem timerLess_ok {a b : Nat} {first second : Timer} (left : loop.memory a = some first)
    (right : loop.memory b = some second) :
    timerLess loop a b = .ok (decide (loop.key a < loop.key b)) := by
  unfold timerLess
  rw [Loop.timer_ok left, Loop.timer_ok right]
  simp only [Loop.key, left, right, Timer.key, Prod.Lex.toLex_lt_toLex]
  by_cases same : first.fireAt = second.fireAt
  · simp [same, pure, Except.pure, bind, Except.bind]
  · simp [same, pure, Except.pure, bind, Except.bind]

/-- A timer but for its place. -/
def Timer.bare (timer : Timer) : Timer := { timer with heapIndex := 0 }

/-- The linked timers are in other cells, and nothing else has changed. -/
structure Rearranged (loop loop' : Loop) : Prop where
  fixed : loop' = { loop with timers := loop'.timers, memory := loop'.memory }
  linked : ∀ p, Linked loop' p ↔ Linked loop p
  timer : ∀ p, (loop'.memory p).map Timer.bare = (loop.memory p).map Timer.bare
  apart : ∀ p, ¬ Linked loop p → loop'.memory p = loop.memory p

theorem Rearranged.refl (loop : Loop) : Rearranged loop loop :=
  ⟨rfl, fun _ => Iff.rfl, fun _ => rfl, fun _ _ => rfl⟩

theorem Rearranged.trans {loop'' : Loop} (first : Rearranged loop loop')
    (second : Rearranged loop' loop'') : Rearranged loop loop'' where
  fixed := by
    rw [second.fixed, first.fixed]
  linked := fun p => (second.linked p).trans (first.linked p)
  timer := fun p => (second.timer p).trans (first.timer p)
  apart := fun p away =>
    (second.apart p (fun linked => away ((first.linked p).mp linked))).trans (first.apart p away)

theorem Rearranged.count (rearranged : Rearranged loop loop') :
    loop'.timerCount = loop.timerCount := by rw [rearranged.fixed]

theorem key_bare {timers timers' : Option Timer}
    (same : timers'.map Timer.bare = timers.map Timer.bare) :
    timers'.map Timer.key = timers.map Timer.key := by
  cases timers with
  | none =>
    cases timers' with
    | none => rfl
    | some timer' => cases same
  | some timer =>
    cases timers' with
    | none => cases same
    | some timer' =>
      have bare : timer'.bare = timer.bare := Option.some.inj same
      have at' : timer'.bare.fireAt = timer.bare.fireAt := by rw [bare]
      have seq : timer'.bare.seq = timer.bare.seq := by rw [bare]
      exact congrArg some (congrArg toLex (Prod.ext at' seq))

theorem Loop.key_eq (loop : Loop) (p : Nat) :
    loop.key p = ((loop.memory p).map Timer.key).getD (toLex (0, 0)) := by
  unfold Loop.key
  cases loop.memory p with
  | none => rfl
  | some timer => rfl

theorem Rearranged.key (rearranged : Rearranged loop loop') : loop'.key = loop.key := by
  funext p
  rw [Loop.key_eq, Loop.key_eq, key_bare (rearranged.timer p)]

/-! ## Exchanges -/

theorem exchange_linked {cells : Nat → Nat} {n a b : Nat} (left : a < n) (right : b < n) (p : Nat) :
    (∃ i < n, exchange cells a b i = p) ↔ ∃ i < n, cells i = p := by
  have swapped : ∀ i < n, ∃ j < n, exchange cells a b i = cells j := by
    intro i held
    cases decEq i a with
    | isTrue same => exact ⟨b, right, by rw [same, exchange_left]⟩
    | isFalse other =>
      cases decEq i b with
      | isTrue same => exact ⟨a, left, by rw [same, exchange_right]⟩
      | isFalse apart => exact ⟨i, held, exchange_other cells other apart⟩
  have back : ∀ i < n, ∃ j < n, exchange cells a b j = cells i := by
    intro i held
    cases decEq i a with
    | isTrue same => exact ⟨b, right, by rw [same, exchange_right]⟩
    | isFalse other =>
      cases decEq i b with
      | isTrue same => exact ⟨a, left, by rw [same, exchange_left]⟩
      | isFalse apart => exact ⟨i, held, exchange_other cells other apart⟩
  constructor
  · rintro ⟨i, held, rfl⟩
    obtain ⟨j, held', same⟩ := swapped i held
    exact ⟨j, held', same.symm⟩
  · rintro ⟨i, held, rfl⟩
    exact back i held

theorem timerSwap_ok (placed : Placed loop) {a b : Nat} (left : a < loop.timerCount)
    (right : b < loop.timerCount) (apart : a ≠ b) :
    ∃ loop', timerSwap loop a b = .ok loop' ∧ Rearranged loop loop' ∧ Placed loop' ∧
      loop'.timers = exchange loop.timers a b := by
  obtain ⟨first, foundFirst, indexFirst⟩ := placed.held a left
  obtain ⟨second, foundSecond, indexSecond⟩ := placed.held b right
  have other : loop.timers a ≠ loop.timers b := fun same => apart (placed.inj left right same)
  have insideLeft : a < loop.timerCap := left.trans_le placed.room
  have insideRight : b < loop.timerCap := right.trans_le placed.room
  let memory : Nat → Option Timer := fun q =>
    if q = loop.timers a then some { first with heapIndex := b }
    else if q = loop.timers b then some { second with heapIndex := a } else loop.memory q
  have done : timerSwap loop a b =
      .ok { loop with timers := exchange loop.timers a b, memory } := by
    have crossed : (fun j => if j = b then loop.timers a else
        if j = a then loop.timers b else loop.timers j) = exchange loop.timers a b := by
      funext j
      unfold exchange
      split
      · rename_i same
        rw [if_neg (by rw [same]; exact apart.symm)]
      · rfl
    unfold timerSwap
    rw [placed.cell_ok left, placed.cell_ok right]
    simp only [Loop.setCell, Loop.place, Loop.cell, Loop.timer, Loop.store, insideLeft, insideRight,
      if_true, bind, Except.bind, pure, Except.pure, crossed, exchange_left, exchange_right,
      foundFirst, foundSecond, if_neg other]
    rfl
  refine ⟨_, done, ⟨rfl, exchange_linked left right, fun q => ?_, fun q away => ?_⟩,
    ⟨placed.room, fun i held => ?_⟩, rfl⟩
  · show (memory q).map Timer.bare = _
    simp only [memory]
    split
    · rename_i same
      rw [same, foundFirst]
      rfl
    · split
      · rename_i same
        rw [same, foundSecond]
        rfl
      · rfl
  · show memory q = _
    simp only [memory]
    rw [if_neg (fun same => away ⟨a, left, same.symm⟩),
      if_neg (fun same => away ⟨b, right, same.symm⟩)]
  · show ∃ timer, memory (exchange loop.timers a b i) = some timer ∧ timer.heapIndex = i
    simp only [memory]
    cases decEq i a with
    | isTrue same =>
      rw [same, exchange_left, if_neg other.symm, if_pos rfl]
      exact ⟨_, rfl, rfl⟩
    | isFalse notLeft =>
      cases decEq i b with
      | isTrue same =>
        rw [same, exchange_right, if_pos rfl]
        exact ⟨_, rfl, rfl⟩
      | isFalse notRight =>
        rw [exchange_other _ notLeft notRight,
          if_neg (fun same => notLeft (placed.inj held left same)),
          if_neg (fun same => notRight (placed.inj held right same))]
        exact placed.held i held

/-! ## Sifting -/

/-- Each cell in use is in order with the one above it. -/
def Heaped (loop : Loop) : Prop := Ordered loop.key loop.timerCount loop.timers

/-- The comparison of two cells in use. -/
theorem Placed.less_ok (placed : Placed loop) {a b : Nat} (left : a < loop.timerCount)
    (right : b < loop.timerCount) : timerLess loop (loop.timers a) (loop.timers b) =
      .ok (decide (loop.key (loop.timers a) < loop.key (loop.timers b))) := by
  obtain ⟨first, foundFirst, -⟩ := placed.held a left
  obtain ⟨second, foundSecond, -⟩ := placed.held b right
  exact timerLess_ok foundFirst foundSecond

/-- What a sift leaves. -/
structure Sifted (loop loop' : Loop) : Prop where
  rearranged : Rearranged loop loop'
  placed : Placed loop'
  heaped : Heaped loop'

theorem timerUp_ok {fuel : Nat} (placed : Placed loop) (held : idx < loop.timerCount)
    (rising : Rising loop.key loop.timerCount loop.timers idx) (enough : idx ≤ fuel) :
    ∃ loop', timerUp fuel loop idx = .ok loop' ∧ Sifted loop loop' := by
  induction fuel generalizing loop idx with
  | zero =>
    have top : idx = 0 := by omega
    subst top
    exact ⟨loop, rfl, .refl loop, placed, rising.settle (fun below => absurd below (by omega))⟩
  | succ fuel ih =>
    cases decEq idx 0 with
    | isTrue top =>
      subst top
      exact ⟨loop, rfl, .refl loop, placed, rising.settle (fun below => absurd below (by omega))⟩
    | isFalse inner =>
      have below : 0 < idx := by omega
      have above : parent idx < loop.timerCount := (parent_lt below).trans held
      have unfolded : timerUp (fuel + 1) loop idx =
          if loop.key (loop.timers idx) < loop.key (loop.timers (parent idx)) then
            timerSwap loop idx (parent idx) >>= fun loop => timerUp fuel loop (parent idx)
          else pure loop := by
        show (if idx = 0 then _ else _) = _
        rw [if_neg inner]
        show (loop.cell idx >>= fun here => loop.cell (parent idx) >>= fun above => _) = _
        rw [placed.cell_ok held, placed.cell_ok above]
        show (timerLess loop _ _ >>= _) = _
        rw [placed.less_ok held above]
        by_cases early : loop.key (loop.timers idx) < loop.key (loop.timers (parent idx))
        · simp only [early, decide_true, if_true]
          rfl
        · simp only [early, decide_false, if_false]
          rfl
      rw [unfolded]
      by_cases early : loop.key (loop.timers idx) < loop.key (loop.timers (parent idx))
      · rw [if_pos early]
        obtain ⟨swapped, done, rearranged, placed', cells⟩ :=
          timerSwap_ok placed held above (parent_lt below).ne'
        have rising' := rising.exchanged below held early
        rw [← cells, ← rearranged.key, ← rearranged.count] at rising'
        obtain ⟨last, finished, sifted⟩ := ih placed' (by rw [rearranged.count]; exact above)
          rising' (by have := parent_lt below; omega)
        rw [done]
        exact ⟨last, finished, rearranged.trans sifted.rearranged, sifted.placed, sifted.heaped⟩
      · rw [if_neg early]
        exact ⟨loop, rfl, .refl loop, placed, rising.settle (fun _ => not_lt.mp early)⟩

/-- The better of a cell and a child, as the comparison says. -/
def better (loop : Loop) (child best : Nat) : Nat :=
  if child < loop.timerCount ∧ loop.key (loop.timers child) < loop.key (loop.timers best) then child
  else best

theorem timerBest_ok (placed : Placed loop) {child best : Nat} (held : best < loop.timerCount) :
    timerBest loop child best = .ok (better loop child best) := by
  unfold timerBest better
  by_cases inside : child < loop.timerCount
  · rw [if_pos inside, placed.cell_ok inside, placed.cell_ok held]
    show (timerLess loop _ _ >>= _) = _
    rw [placed.less_ok inside held]
    by_cases early : loop.key (loop.timers child) < loop.key (loop.timers best)
    · rw [if_pos ⟨inside, early⟩]
      simp only [early, decide_true]
      rfl
    · rw [if_neg (fun both => early both.2)]
      simp only [early, decide_false]
      rfl
  · rw [if_neg inside, if_neg (fun both => inside both.1)]
    rfl

theorem better_held {child best : Nat} (held : best < loop.timerCount) :
    better loop child best < loop.timerCount := by
  unfold better
  split
  · rename_i both
    exact both.1
  · exact held

theorem better_le (loop : Loop) (child best : Nat) :
    loop.key (loop.timers (better loop child best)) ≤ loop.key (loop.timers best) := by
  unfold better
  split
  · rename_i both
    exact both.2.le
  · exact le_refl _

theorem better_le_child {child best : Nat} (inside : child < loop.timerCount) :
    loop.key (loop.timers (better loop child best)) ≤ loop.key (loop.timers child) := by
  unfold better
  split
  · exact le_refl _
  · rename_i late
    exact not_lt.mp (fun early => late ⟨inside, early⟩)

/-- What stands best of a cell and its children, unless it is the cell itself. -/
theorem better_cases (loop : Loop) (child best : Nat) :
    better loop child best = best ∨ (better loop child best = child ∧
      child < loop.timerCount ∧ loop.key (loop.timers child) < loop.key (loop.timers best)) := by
  unfold better
  split
  · rename_i both
    exact .inr ⟨rfl, both⟩
  · exact .inl rfl

theorem child_cases {i idx : Nat} (positive : 0 < i) (under : parent i = idx) :
    i = idx * 2 + 1 ∨ i = idx * 2 + 2 := by
  unfold parent at under
  omega

theorem timerDown_ok {fuel : Nat} (placed : Placed loop) (held : idx < loop.timerCount)
    (sinking : Sinking loop.key loop.timerCount loop.timers idx)
    (enough : loop.timerCount ≤ idx + fuel) :
    ∃ loop', timerDown fuel loop idx = .ok loop' ∧ Sifted loop loop' := by
  induction fuel generalizing loop idx with
  | zero => omega
  | succ fuel ih =>
    let first := better loop (idx * 2 + 1) idx
    let best := better loop (idx * 2 + 2) first
    have firstHeld : first < loop.timerCount := better_held held
    have bestHeld : best < loop.timerCount := better_held firstHeld
    have unfolded : timerDown (fuel + 1) loop idx =
        if best = idx then pure loop
        else timerSwap loop idx best >>= fun loop => timerDown fuel loop best := by
      show (timerBest loop (idx * 2 + 1) idx >>= fun best =>
        timerBest loop (idx * 2 + 2) best >>= fun best => _) = _
      rw [timerBest_ok placed held]
      show (timerBest loop (idx * 2 + 2) first >>= fun best => _) = _
      rw [timerBest_ok placed firstHeld]
      rfl
    have least : ∀ i, 0 < i → i < loop.timerCount → parent i = idx →
        loop.key (loop.timers best) ≤ loop.key (loop.timers i) := by
      intro i positive inside under
      rcases child_cases positive under with rfl | rfl
      · exact (better_le loop _ first).trans (better_le_child inside)
      · exact better_le_child inside
    rw [unfolded]
    cases decEq best idx with
    | isTrue same =>
      rw [if_pos same]
      rw [same] at least
      exact ⟨loop, rfl, .refl loop, placed, sinking.settle least⟩
    | isFalse other =>
      rw [if_neg other]
      have chosen : (best = idx * 2 + 1 ∨ best = idx * 2 + 2) ∧
          loop.key (loop.timers best) < loop.key (loop.timers idx) := by
        rcases better_cases loop (idx * 2 + 2) first with kept | ⟨second, -, early⟩
        · rcases better_cases loop (idx * 2 + 1) idx with none | ⟨left, -, early⟩
          · exact absurd (kept.trans none) other
          · have here : best = idx * 2 + 1 := kept.trans left
            exact ⟨.inl here, by rw [here]; exact early⟩
        · have here : best = idx * 2 + 2 := second
          refine ⟨.inr here, ?_⟩
          rw [here]
          exact early.trans_le (better_le loop _ idx)
      have under : parent best = idx := by
        unfold parent
        omega
      have positive : 0 < best := by omega
      obtain ⟨swapped, done, rearranged, placed', cells⟩ :=
        timerSwap_ok placed held bestHeld (fun same => other same.symm)
      have sinking' := sinking.exchanged positive under bestHeld chosen.2 least
      rw [← cells, ← rearranged.key, ← rearranged.count] at sinking'
      obtain ⟨last, finished, sifted⟩ := ih placed' (by rw [rearranged.count]; exact bestHeld)
        sinking' (by rw [rearranged.count]; omega)
      rw [done]
      exact ⟨last, finished, rearranged.trans sifted.rearranged, sifted.placed, sifted.heaped⟩

/-! ## Arming and disarming -/

theorem ordered_congr {α β κ : Type*} [LinearOrder κ] {key : α → κ} {key' : β → κ} {n : Nat}
    {cells : Nat → α} {cells' : Nat → β} (ordered : Ordered key n cells)
    (same : ∀ i < n, key' (cells' i) = key (cells i)) : Ordered key' n cells' := by
  intro i positive inside
  rw [same i inside, same _ ((parent_lt positive).trans inside)]
  exact ordered i positive inside

theorem ordered_shrink {α κ : Type*} [LinearOrder κ] {key : α → κ} {n m : Nat} {cells : Nat → α}
    (ordered : Ordered key n cells) (less : m ≤ n) : Ordered key m cells :=
  fun i positive inside => ordered i positive (inside.trans_le less)

theorem Placed.index (placed : Placed loop) (found : loop.memory p = some timer)
    (linked : Linked loop p) :
    timer.heapIndex.toNat < loop.timerCount ∧ loop.timers timer.heapIndex.toNat = p ∧
      0 ≤ timer.heapIndex := by
  obtain ⟨i, held, rfl⟩ := linked
  obtain ⟨timer', found', index⟩ := placed.held i held
  rw [found] at found'
  cases found'
  rw [index]
  exact ⟨held, rfl, Int.natCast_nonneg i⟩

/-- The timer is in the heap now, as the last one armed. -/
structure Links (loop : Loop) (p : Nat) (loop' : Loop) : Prop where
  fixed : loop'.timerSeq = u64 (loop.timerSeq + 1) ∧ loop'.handles = loop.handles ∧
    loop'.now = loop.now ∧ loop'.mailboxOpen = loop.mailboxOpen ∧ loop'.armed = loop.armed + 1
  linked : ∀ q, Linked loop' q ↔ Linked loop q ∨ q = p
  self : ∀ timer, loop.memory p = some timer →
    (loop'.memory p).map Timer.bare = some { timer.bare with seq := loop.timerSeq }
  others : ∀ q, q ≠ p → (loop'.memory q).map Timer.bare = (loop.memory q).map Timer.bare
  apart : ∀ q, ¬ Linked loop q → q ≠ p → loop'.memory q = loop.memory q
  placed : Placed loop'
  heaped : Heaped loop'

theorem timerLink_ok (placed : Placed loop) (heaped : Heaped loop)
    (found : loop.memory p = some timer) (away : ¬ Linked loop p) (room : Bool) :
    (timerLink loop p room = .ok none ∧ room = false) ∨
      ∃ loop', timerLink loop p room = .ok (some loop') ∧ Links loop p loop' := by
  have grown : ∀ wide : Loop, wide = { loop with timerCap := wide.timerCap } →
      loop.timerCount < wide.timerCap →
      ∃ loop', (do
        let idx := wide.timerCount
        let timer ← wide.timer p
        let loop := { wide with
          timerCount := wide.timerCount + 1
          timerSeq := u64 (wide.timerSeq + 1)
          armed := wide.armed + 1 }.store p { timer with
            seq := wide.timerSeq
            heapIndex := idx }
        let loop ← loop.setCell idx p
        let loop ← timerUp idx loop idx
        pure (some loop) : Except Fault (Option Loop)) = .ok (some loop') ∧ Links loop p loop' := by
    intro wide shape inside
    have foundWide : wide.memory p = some timer := by rw [shape]; exact found
    let armed : Loop := { wide with
      timerCount := wide.timerCount + 1
      timerSeq := u64 (wide.timerSeq + 1)
      armed := wide.armed + 1
      timers := fun j => if j = wide.timerCount then p else wide.timers j
      memory := fun q => if q = p then
        some { timer with seq := wide.timerSeq, heapIndex := wide.timerCount } else wide.memory q }
    have count : wide.timerCount = loop.timerCount := by rw [shape]
    have cells : ∀ i < loop.timerCount, armed.timers i = loop.timers i := by
      intro i held
      show (if i = wide.timerCount then p else wide.timers i) = _
      rw [if_neg (by omega), shape]
    have last : armed.timers loop.timerCount = p := by
      show (if loop.timerCount = wide.timerCount then p else _) = p
      rw [if_pos count.symm]
    have memory : ∀ q, q ≠ p → armed.memory q = loop.memory q := by
      intro q other
      show (if q = p then _ else wide.memory q) = _
      rw [if_neg other, shape]
    have self : armed.memory p = some { timer with
        seq := wide.timerSeq, heapIndex := wide.timerCount } := if_pos rfl
    have placed' : Placed armed := by
      refine ⟨?_, fun i held => ?_⟩
      · show wide.timerCount + 1 ≤ wide.timerCap
        omega
      · have held' : i < wide.timerCount + 1 := held
        rcases Nat.lt_or_ge i loop.timerCount with old | isLast
        · rw [cells i old, memory _ (fun same => away ⟨i, old, same⟩)]
          exact placed.held i old
        · have here : i = loop.timerCount := by omega
          subst here
          rw [last, self]
          exact ⟨_, rfl, congrArg Int.ofNat count⟩
    have keys : ∀ i < loop.timerCount,
        armed.key (armed.timers i) = loop.key (loop.timers i) := by
      intro i held
      unfold Loop.key
      rw [cells i held, memory _ (fun same => away ⟨i, held, same⟩)]
    have rising : Rising armed.key armed.timerCount armed.timers wide.timerCount := by
      show Rising armed.key (wide.timerCount + 1) armed.timers wide.timerCount
      rw [count]
      exact Ordered.grown (ordered_congr heaped keys)
    have risen : ∃ loop', timerUp wide.timerCount armed wide.timerCount = .ok loop' ∧
        Sifted armed loop' := timerUp_ok placed' (Nat.lt_succ_self _) rising (le_refl _)
    obtain ⟨loop', done, sifted⟩ := risen
    refine ⟨loop', ?_, ?_⟩
    · show (wide.timer p >>= _) = _
      rw [Loop.timer_ok foundWide]
      have inCap : wide.timerCount < wide.timerCap := by omega
      simp only [Loop.setCell, Loop.store, inCap, if_true, bind, Except.bind, pure, Except.pure]
      rw [show timerUp wide.timerCount _ wide.timerCount = .ok loop' from done]
    · have linkedArmed : ∀ q, Linked armed q ↔ Linked loop q ∨ q = p := by
        intro q
        constructor
        · rintro ⟨i, held, rfl⟩
          have held' : i < wide.timerCount + 1 := held
          rcases Nat.lt_or_ge i loop.timerCount with old | isLast
          · exact .inl ⟨i, old, (cells i old).symm⟩
          · have here : i = loop.timerCount := by omega
            subst here
            exact .inr last
        · rintro (⟨i, held, rfl⟩ | rfl)
          · exact ⟨i, by show i < wide.timerCount + 1; omega, cells i held⟩
          · exact ⟨loop.timerCount, by show loop.timerCount < wide.timerCount + 1; omega, last⟩
      have rearranged := sifted.rearranged
      refine ⟨?_, fun q => (rearranged.linked q).trans (linkedArmed q), fun known here => ?_,
        fun q other => (rearranged.timer q).trans (by rw [memory q other]), fun q out other => ?_,
        sifted.placed, sifted.heaped⟩
      · rw [rearranged.fixed]
        show u64 (wide.timerSeq + 1) = _ ∧ wide.handles = _ ∧ wide.now = _ ∧ wide.mailboxOpen = _ ∧
          wide.armed + 1 = _
        rw [shape]
        exact ⟨rfl, rfl, rfl, rfl, rfl⟩
      · rw [found] at here
        cases here
        rw [rearranged.timer p, self, shape]
        rfl
      · rw [rearranged.apart q (fun linked => ((linkedArmed q).mp linked).elim out other),
          memory q other]
  unfold timerLink
  cases decEq loop.timerCount loop.timerCap with
  | isFalse space =>
    rw [if_neg space]
    exact .inr (grown loop rfl (lt_of_le_of_ne placed.room space))
  | isTrue full =>
    rw [if_pos full]
    unfold timerGrow
    cases room with
    | false => exact .inl ⟨rfl, rfl⟩
    | true =>
      refine .inr (grown { loop with
        timerCap := if loop.timerCap ≠ 0 then loop.timerCap * 2 else 16 } rfl ?_)
      show loop.timerCount < if loop.timerCap ≠ 0 then loop.timerCap * 2 else 16
      split
      · omega
      · omega

/-- The timer has left the heap. -/
structure Unlinks (loop : Loop) (p : Nat) (loop' : Loop) : Prop where
  fixed : loop' = { loop with
    timers := loop'.timers, memory := loop'.memory, timerCount := loop'.timerCount }
  count : loop'.timerCount + 1 = loop.timerCount
  linked : ∀ q, Linked loop' q ↔ Linked loop q ∧ q ≠ p
  self : ∀ timer, loop.memory p = some timer →
    loop'.memory p = some { timer with heapIndex := -1 }
  others : ∀ q, q ≠ p → (loop'.memory q).map Timer.bare = (loop.memory q).map Timer.bare
  apart : ∀ q, ¬ Linked loop q → q ≠ p → loop'.memory q = loop.memory q
  placed : Placed loop'
  heaped : Heaped loop'

/-- What cells beyond those in use hold does not matter. -/
theorem Placed.agree (placed : Placed loop) (fixed : loop' = { loop with timers := loop'.timers })
    (same : ∀ i < loop.timerCount, loop'.timers i = loop.timers i) : Placed loop' := by
  rw [fixed]
  refine ⟨placed.room, fun i held => ?_⟩
  show ∃ timer, loop.memory (loop'.timers i) = some timer ∧ timer.heapIndex = i
  rw [same i held]
  exact placed.held i held

theorem Heaped.agree (heaped : Heaped loop) (fixed : loop' = { loop with timers := loop'.timers })
    (same : ∀ i < loop.timerCount, loop'.timers i = loop.timers i) : Heaped loop' := by
  rw [fixed]
  exact ordered_congr heaped (fun i held => congrArg loop.key (same i held))

theorem linked_agree (fixed : loop' = { loop with timers := loop'.timers })
    (same : ∀ i < loop.timerCount, loop'.timers i = loop.timers i) (q : Nat) :
    Linked loop' q ↔ Linked loop q := by
  rw [fixed]
  exact exists_congr (fun i => and_congr_right (fun held => by rw [← same i held]))

/-- The last cell is given up and its timer put where another one was. -/
theorem timerRefill_ok (placed : Placed loop) (heaped : Heaped loop)
    (found : loop.memory p = some timer) {last : Nat} (count : loop.timerCount = last + 1)
    (held : idx < last) (here : loop.timers idx = p) :
    ∃ loop', timerRefill { loop.store p { timer with heapIndex := -1 } with timerCount := last }
        idx last = .ok loop' ∧ Unlinks loop p loop' := by
  have lastHeld : last < loop.timerCount := by omega
  obtain ⟨moved, foundMoved, -⟩ := placed.held last lastHeld
  have inCap : last < loop.timerCap := lastHeld.trans_le placed.room
  have idxCap : idx < loop.timerCap := held.trans inCap
  have notLast : loop.timers last ≠ p := by
    intro same
    have := placed.inj lastHeld (held.trans lastHeld) (same.trans here.symm)
    omega
  let filled : Loop := { loop with
    timerCount := last
    timers := fun j => if j = idx then loop.timers last else loop.timers j
    memory := fun q => if q = loop.timers last then some { moved with heapIndex := idx }
      else if q = p then some { timer with heapIndex := -1 } else loop.memory q }
  have cellsOther : ∀ i, i ≠ idx → filled.timers i = loop.timers i := fun i other => if_neg other
  have cellsHere : filled.timers idx = loop.timers last := if_pos rfl
  have memoryOther : ∀ q, q ≠ loop.timers last → q ≠ p → filled.memory q = loop.memory q :=
    fun q apart other => (if_neg apart).trans (if_neg other)
  have memoryMoved : filled.memory (loop.timers last) = some { moved with heapIndex := idx } :=
    if_pos rfl
  have memorySelf : filled.memory p = some { timer with heapIndex := -1 } :=
    (if_neg notLast.symm).trans (if_pos rfl)
  have bare : ∀ q, (filled.memory q).map Timer.bare = (loop.memory q).map Timer.bare := by
    intro q
    cases decEq q (loop.timers last) with
    | isTrue same =>
      rw [same, memoryMoved, foundMoved]
      rfl
    | isFalse apart =>
      cases decEq q p with
      | isTrue same =>
        rw [same, memorySelf, found]
        rfl
      | isFalse other => rw [memoryOther q apart other]
  have keys : filled.key = loop.key := by
    funext q
    rw [Loop.key_eq, Loop.key_eq, key_bare (bare q)]
  have placed' : Placed filled := by
    refine ⟨inCap.le, fun i inside => ?_⟩
    have inside' : i < last := inside
    cases decEq i idx with
    | isTrue same =>
      subst same
      rw [cellsHere, memoryMoved]
      exact ⟨_, rfl, rfl⟩
    | isFalse other =>
      rw [cellsOther i other]
      have iHeld : i < loop.timerCount := by omega
      have apart : loop.timers i ≠ loop.timers last := by
        intro same
        have := placed.inj iHeld lastHeld same
        omega
      have notSelf : loop.timers i ≠ p := by
        intro same
        exact other (placed.inj iHeld (held.trans lastHeld) (same.trans here.symm))
      rw [memoryOther _ apart notSelf]
      exact placed.held i iHeld
  have replaced : (filled.key (filled.timers idx) < filled.key (filled.timers (parent idx)) →
      Rising filled.key filled.timerCount filled.timers idx) ∧
      (¬ (0 < idx ∧ filled.key (filled.timers idx) < filled.key (filled.timers (parent idx))) →
        Sinking filled.key filled.timerCount filled.timers idx) := by
    rw [keys]
    exact Ordered.replaced (ordered_shrink heaped (by omega)) held
      (fun i _ other => cellsOther i other)
  have linked : ∀ q, Linked filled q ↔ Linked loop q ∧ q ≠ p := by
    intro q
    constructor
    · rintro ⟨i, inside, rfl⟩
      have inside' : i < last := inside
      cases decEq i idx with
      | isTrue same =>
        rw [same, cellsHere]
        exact ⟨⟨last, lastHeld, rfl⟩, notLast⟩
      | isFalse other =>
        rw [cellsOther i other]
        refine ⟨⟨i, by omega, rfl⟩, fun same => other ?_⟩
        exact placed.inj (by omega) (held.trans lastHeld) (same.trans here.symm)
    · rintro ⟨⟨i, inside, rfl⟩, other⟩
      cases decEq i last with
      | isTrue same =>
        rw [same]
        exact ⟨idx, held, cellsHere⟩
      | isFalse apart =>
        have notIdx : i ≠ idx := by
          intro same
          rw [same] at other
          exact other here
        exact ⟨i, by show i < last; omega, cellsOther i notIdx⟩
  let opened : Loop := { loop with
    timerCount := last
    timers := filled.timers
    memory := fun q => if q = p then some { timer with heapIndex := -1 } else loop.memory q }
  have placedCell : opened.place idx = .ok filled := by
    have into : opened.memory (loop.timers last) = some moved := (if_neg notLast).trans foundMoved
    have reached : opened.cell idx = .ok (loop.timers last) :=
      (if_pos idxCap).trans (congrArg Except.ok cellsHere)
    unfold Loop.place
    rw [reached]
    show (opened.timer (loop.timers last) >>= _) = _
    rw [Loop.timer_ok into]
    rfl
  have started : timerRefill
      { loop.store p { timer with heapIndex := -1 } with timerCount := last } idx last =
      if 0 < idx ∧ filled.key (filled.timers idx) < filled.key (filled.timers (parent idx)) then
        timerUp idx filled idx
      else timerDown last filled idx := by
    unfold timerRefill
    rw [show Loop.cell { loop.store p { timer with heapIndex := -1 } with timerCount := last } last =
      .ok (loop.timers last) from if_pos inCap]
    show (Loop.setCell _ idx (loop.timers last) >>= _) = _
    rw [show Loop.setCell { loop.store p { timer with heapIndex := -1 } with timerCount := last } idx
      (loop.timers last) = .ok opened from if_pos idxCap]
    show (opened.place idx >>= _) = _
    rw [placedCell]
    show (if 0 < idx then _ else _) = _
    by_cases below : 0 < idx
    · rw [if_pos below]
      have above : parent idx < filled.timerCount := (parent_lt below).trans held
      rw [placed'.cell_ok held]
      show (filled.cell (parent idx) >>= _) = _
      rw [placed'.cell_ok above]
      show (timerLess filled _ _ >>= _) = _
      rw [placed'.less_ok held above]
      by_cases early : filled.key (filled.timers idx) < filled.key (filled.timers (parent idx))
      · rw [if_pos ⟨below, early⟩]
        simp only [early, decide_true]
        rfl
      · rw [if_neg (fun both => early both.2)]
        simp only [early, decide_false]
        rfl
    · rw [if_neg below, if_neg (fun both => below both.1)]
  have finish : ∀ loop', Sifted filled loop' → Unlinks loop p loop' := by
    intro loop' sifted
    have rearranged := sifted.rearranged
    refine ⟨?_, ?_, fun q => (rearranged.linked q).trans (linked q), fun known same => ?_,
      fun q _ => (rearranged.timer q).trans (bare q), fun q away other => ?_, sifted.placed,
      sifted.heaped⟩
    · rw [rearranged.count]
      exact rearranged.fixed
    · rw [rearranged.count, count]
    · rw [found] at same
      cases same
      rw [rearranged.apart p (fun inside => ((linked p).mp inside).2 rfl), memorySelf]
    · have apart : q ≠ loop.timers last := fun same => away ⟨last, lastHeld, same.symm⟩
      rw [rearranged.apart q (fun inside => away ((linked q).mp inside).1),
        memoryOther q apart other]
  rw [started]
  split
  · rename_i both
    have risen : ∃ loop', timerUp idx filled idx = .ok loop' ∧ Sifted filled loop' :=
      timerUp_ok placed' held (replaced.1 both.2) (le_refl _)
    obtain ⟨loop', done, sifted⟩ := risen
    exact ⟨loop', done, finish loop' sifted⟩
  · rename_i late
    have sunk : ∃ loop', timerDown last filled idx = .ok loop' ∧ Sifted filled loop' :=
      timerDown_ok placed' held (replaced.2 late) (Nat.le_add_left _ _)
    obtain ⟨loop', done, sifted⟩ := sunk
    exact ⟨loop', done, finish loop' sifted⟩

theorem timerUnlink_ok (placed : Placed loop) (heaped : Heaped loop)
    (found : loop.memory p = some timer) (linked : Linked loop p) :
    ∃ loop', timerUnlink loop p = .ok loop' ∧ Unlinks loop p loop' := by
  obtain ⟨held, here, known⟩ := placed.index found linked
  obtain ⟨last, count⟩ : ∃ last, loop.timerCount = last + 1 := ⟨loop.timerCount - 1, by omega⟩
  have inCap : last < loop.timerCap := by
    have := placed.room
    omega
  have lastHeld : last < loop.timerCount := by omega
  -- the cell that is given up is cleared, whatever it held
  have cleared : ∀ left : Loop, Unlinks loop p left → left.timerCount = last →
      ∃ loop', left.setCell last 0 = .ok loop' ∧ Unlinks loop p loop' := by
    intro left unlinks size
    have same : ∀ i < left.timerCount,
        (if i = last then 0 else left.timers i) = left.timers i := fun i inside =>
      if_neg (by omega)
    have wide : left.timerCap = loop.timerCap := by rw [unlinks.fixed]
    refine ⟨{ left with timers := fun j => if j = last then 0 else left.timers j },
      if_pos (by rw [wide]; exact inCap), ⟨?_, unlinks.count, fun q => ?_, unlinks.self,
        unlinks.others, unlinks.apart, unlinks.placed.agree rfl same,
        unlinks.heaped.agree rfl same⟩⟩
    · conv => lhs; rw [unlinks.fixed]
    · exact (linked_agree rfl same q).trans (unlinks.linked q)
  have unfolded : timerUnlink loop p = (do
      let loop ← if timer.heapIndex.toNat ≠ last then
          timerRefill { loop.store p { timer with heapIndex := -1 } with timerCount := last }
            timer.heapIndex.toNat last
        else pure { loop.store p { timer with heapIndex := -1 } with timerCount := last }
      loop.setCell last 0) := by
    unfold timerUnlink
    rw [Loop.timer_ok found]
    show (if timer.heapIndex < 0 then _ else _) = _
    rw [if_neg (by omega)]
    show (if loop.timerCount = 0 then _ else _) = _
    rw [if_neg (by omega)]
    have size : (loop.store p { timer with heapIndex := -1 }).timerCount - 1 = last := by
      show loop.timerCount - 1 = last
      omega
    simp only [size]
  rw [unfolded]
  cases decEq timer.heapIndex.toNat last with
  | isFalse inner =>
    rw [if_pos inner]
    obtain ⟨left, done, unlinks⟩ := timerRefill_ok placed heaped found count (by omega) here
    rw [done]
    have size := unlinks.count
    exact cleared left unlinks (by omega)
  | isTrue isLast =>
    rw [if_neg (fun other => other isLast)]
    refine cleared _ ⟨rfl, count.symm, fun q => ?_, fun known same => ?_, fun q other => ?_, fun q _ other => ?_,
      ⟨inCap.le, fun i inside => ?_⟩, ?_⟩ rfl
    · constructor
      · rintro ⟨i, inside, rfl⟩
        have inside' : i < last := inside
        refine ⟨⟨i, by omega, rfl⟩, fun same => ?_⟩
        have := placed.inj (by omega) held (same.trans here.symm)
        omega
      · rintro ⟨⟨i, inside, rfl⟩, other⟩
        refine ⟨i, ?_, rfl⟩
        show i < last
        have apart : i ≠ last := by
          intro same
          rw [same, ← isLast] at other
          exact other here
        omega
    · rw [found] at same
      cases same
      exact if_pos rfl
    · exact congrArg (Option.map Timer.bare) (if_neg other)
    · exact if_neg other
    · have inside' : i < last := inside
      have other : loop.timers i ≠ p := by
        intro same
        have := placed.inj (by omega) held (same.trans here.symm)
        omega
      have kept : (loop.store p { timer with heapIndex := -1 }).memory (loop.timers i) =
          loop.memory (loop.timers i) := if_neg other
      show ∃ timer', (loop.store p { timer with heapIndex := -1 }).memory (loop.timers i) =
        some timer' ∧ _
      rw [kept]
      exact placed.held i (by omega)
    · have keys : Loop.key { loop.store p { timer with heapIndex := -1 } with timerCount := last } =
          loop.key := by
        funext q
        rw [Loop.key_eq, Loop.key_eq]
        refine congrArg (fun key => Option.getD key _) (key_bare ?_)
        show ((if q = p then _ else loop.memory q) : Option Timer).map Timer.bare = _
        split
        · rename_i same
          rw [same, found]
          rfl
        · rfl
      unfold Heaped
      rw [keys]
      exact ordered_shrink heaped (by show last ≤ loop.timerCount; omega)

end Kynovo.Event
