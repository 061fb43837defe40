import Kynovo.Event.Slots

/-! The free slots are a chain that every slot without a socket is on, and each
generation of a slot was given to one socket only. -/
namespace Kynovo.Event.Slots

variable {loop loop' : Loop} {slots : List UnixSlot} {slot : UnixSlot} {free : Int}
  {chain : List Nat} {i : Nat}

/-- The chain of free slots that begins at an index. -/
def Chained (slots : List UnixSlot) : Int → List Nat → Prop
  | free, [] => free < 0
  | free, i :: rest =>
    free = i ∧ ∃ slot, slots[i]? = some slot ∧ slot.sock = 0 ∧ Chained slots slot.nextFree rest

theorem Chained.inside (chained : Chained slots free chain) : ∀ i ∈ chain, i < slots.length := by
  induction chain generalizing free with
  | nil => exact nofun
  | cons first rest ih =>
    obtain ⟨-, slot, found, -, more⟩ := chained
    intro i held
    rcases List.mem_cons.mp held with rfl | later
    · exact (List.getElem?_eq_some_iff.mp found).1
    · exact ih more i later

theorem Chained.set (chained : Chained slots free chain) (away : i ∉ chain) (slot : UnixSlot) :
    Chained (slots.set i slot) free chain := by
  induction chain generalizing free with
  | nil => exact chained
  | cons first rest ih =>
    obtain ⟨here, old, found, none, more⟩ := chained
    have other : i ≠ first := fun same => away (by rw [same]; exact List.mem_cons_self)
    refine ⟨here, old, ?_, none, ih more (fun held => away (List.mem_cons_of_mem _ held))⟩
    rw [List.getElem?_set_ne other]
    exact found

theorem Chained.append (chained : Chained slots free chain) (more : List UnixSlot) :
    Chained (slots ++ more) free chain := by
  induction chain generalizing free with
  | nil => exact chained
  | cons first rest ih =>
    obtain ⟨here, old, found, none, later⟩ := chained
    refine ⟨here, old, ?_, none, ih later⟩
    rw [List.getElem?_append_left (List.getElem?_eq_some_iff.mp found).1]
    exact found

theorem getElem?_newSlots {first count k : Nat} (held : k < count) :
    (newSlots first count free)[k]? =
      some ⟨0, 0, if k + 1 < count then ((first + k + 1 : Nat) : Int) else free⟩ := by
  simp [newSlots, held]

theorem length_newSlots (first count : Nat) (free : Int) :
    (newSlots first count free).length = count := by simp [newSlots]

/-- The new slots are a chain in front of the old one. -/
theorem chained_newSlots (chained : Chained slots free chain) (count k : Nat)
    (held : k < count) :
    Chained (slots ++ newSlots slots.length count free) ((slots.length + k : Nat) : Int)
      (List.range' (slots.length + k) (count - k) ++ chain) := by
  obtain ⟨left, size⟩ : ∃ left, count - k = left + 1 := ⟨count - k - 1, by omega⟩
  rw [size, List.range'_succ]
  have found : (slots ++ newSlots slots.length count free)[slots.length + k]? =
      some ⟨0, 0, if k + 1 < count then ((slots.length + k + 1 : Nat) : Int) else free⟩ := by
    rw [List.getElem?_append_right (Nat.le_add_right _ _), Nat.add_sub_cancel_left]
    exact getElem?_newSlots held
  refine ⟨rfl, _, found, rfl, ?_⟩
  show Chained _ (if k + 1 < count then ((slots.length + k + 1 : Nat) : Int) else free) _
  by_cases more : k + 1 < count
  · rw [if_pos more]
    have rest := chained_newSlots chained count (k + 1) more
    have same : count - (k + 1) = left := by omega
    rw [same] at rest
    exact rest
  · rw [if_neg more]
    have last : left = 0 := by omega
    rw [last]
    exact chained.append _
termination_by count - k

/-- What a key that was issued stands for. -/
structure Issued (loop : Loop) (sock key : Nat) : Prop where
  known : 0 < sock ∧ sock ≤ loop.opened
  place : ∃ i gen slot, key = gen * 0x100000000 + (i + 1) ∧ i + 1 < 0x80000000 ∧ 0 < gen ∧
    loop.unixSlots[i]? = some slot ∧ gen ≤ slot.gen ∧
      (loop.alive sock → loop.sockets sock = some ⟨i, gen⟩) ∧
        (slot.gen = gen → loop.alive sock ∨ slot.sock = 0)

structure Sound (run : Run) (chain : List Nat) : Prop where
  chained : Chained run.loop.unixSlots run.loop.unixSlotFree chain
  nodup : chain.Nodup
  bound : run.loop.unixSlots.length ≤ chain.length + run.loop.opened
  cap : run.loop.unixSlots.length ≤ 64 ∨ run.loop.unixSlots.length ≤ 2 * run.loop.opened
  gens : ∀ (i : Nat) (slot : UnixSlot), run.loop.unixSlots[i]? = some slot → slot.gen ≤ run.loop.opened
  handle : ∀ s, run.loop.sockets s ≠ none → 0 < s ∧ s ≤ run.loop.opened
  owned : ∀ s socket, run.loop.sockets s = some socket → 0 ≤ socket.unixSlot →
    ∃ slot, run.loop.unixSlots[socket.unixSlot.toNat]? = some slot ∧ slot.sock = s ∧
      slot.gen = socket.unixGen ∧ socket.unixSlot.toNat ∉ chain
  issued : ∀ pair ∈ run.issued, Issued run.loop pair.1 pair.2

/-- An event finds the socket its key was issued to, while that lives, and none after. -/
theorem Issued.finds {run : Run} {sock key : Nat} (issued : Issued run.loop sock key)
    (sound : Sound run chain) :
    (run.loop.alive sock → unixEventSock run.loop key = sock) ∧
      (¬ run.loop.alive sock → unixEventSock run.loop key = 0) := by
  obtain ⟨i, gen, slot, rfl, small, some, found, -, living, dead⟩ := issued.place
  have low : u32 (gen * 0x100000000 + (i + 1)) = i + 1 := by
    unfold u32
    omega
  have high : (gen * 0x100000000 + (i + 1)) / 0x100000000 = gen := by omega
  have event : unixEventSock run.loop (gen * 0x100000000 + (i + 1)) =
      if slot.gen = gen then slot.sock else 0 := by
    unfold unixEventSock
    have inner : ¬ (decide (i + 1 = 0) || decide (0x80000000 ≤ i + 1)) = true := by
      simp only [Bool.or_eq_true, decide_eq_true_eq]
      omega
    rw [if_neg (by omega)]
    simp only [low, high]
    rw [if_neg inner, Nat.add_sub_cancel, found]
  rw [event]
  constructor
  · intro alive
    obtain ⟨slot', found', mine, same, -⟩ := sound.owned sock _ (living alive) (Int.natCast_nonneg i)
    have here : run.loop.unixSlots[i]? = Option.some slot' := found'
    rw [found] at here
    cases here
    rw [if_pos same]
    exact mine
  · intro gone
    split
    · rename_i same
      exact (dead same).resolve_left gone
    · rfl

/-- What may be said of the slots when one is taken. -/
theorem grown_sound {run : Run} (sound : Sound run chain) (fresh : Loop)
    (same : fresh = { run.loop with sockets := fresh.sockets, opened := fresh.opened })
    (room : Bool) {grown : Loop}
    (made : (if fresh.unixSlotFree < 0 then unixSlotGrow fresh room else some fresh) = some grown) :
    grown.sockets = fresh.sockets ∧ grown.opened = fresh.opened ∧
      ∃ first rest, Chained grown.unixSlots grown.unixSlotFree (first :: rest) ∧
        (first :: rest).Nodup ∧
        grown.unixSlots.length ≤ rest.length + 1 + run.loop.opened ∧
        (grown.unixSlots.length ≤ 64 ∨ grown.unixSlots.length ≤ 2 * run.loop.opened) ∧
        (∀ (i : Nat) (slot : UnixSlot), run.loop.unixSlots[i]? = some slot → grown.unixSlots[i]? = some slot) ∧
        (∀ (i : Nat) (slot : UnixSlot), grown.unixSlots[i]? = some slot →
          run.loop.unixSlots[i]? = some slot ∨ slot.gen = 0) ∧
        (∀ i, i < run.loop.unixSlots.length → i ∉ chain → i ∉ first :: rest) := by
  have slots : fresh.unixSlots = run.loop.unixSlots := by rw [same]
  have free : fresh.unixSlotFree = run.loop.unixSlotFree := by rw [same]
  have chained := sound.chained
  split at made
  · rename_i empty
    rw [free] at empty
    have none : chain = [] := by
      cases chain with
      | nil => rfl
      | cons i rest =>
        have here := chained.1
        omega
    subst none
    unfold unixSlotGrow at made
    split at made
    · cases made
      have bound := sound.bound
      simp only [List.length_nil, Nat.zero_add] at bound
      let cap := if run.loop.unixSlots.length ≠ 0 then run.loop.unixSlots.length * 2 else slotBase
      have larger : run.loop.unixSlots.length < cap := by
        show _ < if run.loop.unixSlots.length ≠ 0 then run.loop.unixSlots.length * 2 else slotBase
        unfold slotBase
        split
        · omega
        · omega
      have capBound : cap ≤ 64 ∨ cap ≤ 2 * run.loop.opened := by
        show (if run.loop.unixSlots.length ≠ 0 then run.loop.unixSlots.length * 2 else slotBase) ≤ 64 ∨
          (if run.loop.unixSlots.length ≠ 0 then run.loop.unixSlots.length * 2 else slotBase) ≤ _
        unfold slotBase
        split
        · omega
        · exact .inl (Nat.le_refl _)
      obtain ⟨left, size⟩ : ∃ left, cap - run.loop.unixSlots.length = left + 1 :=
        ⟨cap - run.loop.unixSlots.length - 1, by omega⟩
      have linked := chained_newSlots chained (cap - run.loop.unixSlots.length) 0 (by omega)
      rw [Nat.add_zero, Nat.sub_zero, List.append_nil, size, List.range'_succ] at linked
      rw [slots, free]
      have length : (run.loop.unixSlots ++ newSlots run.loop.unixSlots.length
          (cap - run.loop.unixSlots.length) run.loop.unixSlotFree).length = cap := by
        rw [List.length_append, length_newSlots]
        omega
      refine ⟨rfl, rfl, run.loop.unixSlots.length,
        List.range' (run.loop.unixSlots.length + 1) left, ?_, ?_, ?_, ?_, ?_, ?_, ?_⟩
      · rw [← size] at linked
        exact linked
      · rw [← List.range'_succ]
        exact List.nodup_range'
      · show (run.loop.unixSlots ++ newSlots _ (cap - _) _).length ≤ _
        rw [length, List.length_range']
        omega
      · show (run.loop.unixSlots ++ newSlots _ (cap - _) _).length ≤ 64 ∨ _
        rw [length]
        exact capBound
      · intro i slot found
        show (run.loop.unixSlots ++ _)[i]? = _
        rw [List.getElem?_append_left (List.getElem?_eq_some_iff.mp found).1]
        exact found
      · intro i slot found
        rcases Nat.lt_or_ge i run.loop.unixSlots.length with old | isNew
        · have here : (run.loop.unixSlots ++ newSlots run.loop.unixSlots.length
            (cap - run.loop.unixSlots.length) run.loop.unixSlotFree)[i]? = some slot := found
          rw [List.getElem?_append_left old] at here
          exact .inl here
        · have here : (run.loop.unixSlots ++ newSlots run.loop.unixSlots.length
            (cap - run.loop.unixSlots.length) run.loop.unixSlotFree)[i]? = some slot := found
          rw [List.getElem?_append_right isNew] at here
          have inside := (List.getElem?_eq_some_iff.mp here).1
          rw [length_newSlots] at inside
          rw [getElem?_newSlots inside] at here
          cases here
          exact .inr rfl
      · intro i old _ held
        rw [← List.range'_succ] at held
        have least := (List.mem_range'_1.mp held).1
        omega
    · cases made
  · rename_i some
    cases made
    cases chain with
    | nil =>
      have ends : run.loop.unixSlotFree < 0 := chained
      rw [free] at some
      exact absurd ends some
    | cons first rest =>
      refine ⟨rfl, rfl, first, rest, by rw [slots, free]; exact chained, sound.nodup, ?_, ?_, ?_, ?_,
        fun _ _ away => away⟩
      · rw [slots]
        have bound := sound.bound
        rw [List.length_cons] at bound
        exact bound
      · rw [slots]
        exact sound.cap
      · rw [slots]
        exact fun _ _ found => found
      · rw [slots]
        exact fun _ _ found => .inl found

/-- Nothing but the count of sockets changes when no slot can be had. -/
theorem Sound.refused {run : Run} (sound : Sound run chain) :
    Sound { run with loop := { run.loop with opened := run.loop.opened + 1 } } chain where
  chained := sound.chained
  nodup := sound.nodup
  bound := Nat.le_trans sound.bound (Nat.le_succ _)
  cap := sound.cap.imp_right (fun small => Nat.le_trans small (Nat.mul_le_mul_left 2 (Nat.le_succ _)))
  gens := fun i slot found => Nat.le_trans (sound.gens i slot found) (Nat.le_succ _)
  handle := fun s known => by
    have old := sound.handle s known
    exact ⟨old.1, Nat.le_trans old.2 (Nat.le_succ _)⟩
  owned := sound.owned
  issued := fun pair held => by
    have old := sound.issued pair held
    exact ⟨⟨old.known.1, Nat.le_trans old.known.2 (Nat.le_succ _)⟩, old.place⟩

theorem Sound.create {run : Run} (sound : Sound run chain) (room : Bool)
    (few : run.loop.opened + 1 < 0x40000000) : ∃ chain', Sound (run.step (.create room)) chain' := by
  let sock := run.loop.opened + 1
  let fresh : Loop := { run.loop with opened := sock }.putSocket sock ⟨-1, 0⟩
  cases allocated : unixSlotAlloc fresh sock room with
  | none =>
    have refused : run.step (.create room) =
        { run with loop := { run.loop with opened := run.loop.opened + 1 } } := by
      simp only [Run.step]
      rw [show unixSlotAlloc _ _ room = none from allocated]
    rw [refused]
    exact ⟨chain, sound.refused⟩
  | some loop =>
    have created : run.step (.create room) =
        ⟨loop, run.issued ++ [(sock, ((loop.sockets sock).map unixCookie).getD 0)]⟩ := by
      simp only [Run.step]
      rw [show unixSlotAlloc _ _ room = some loop from allocated]
    rw [created]
    unfold unixSlotAlloc at allocated
    obtain ⟨grown, made, taken⟩ := Option.bind_eq_some_iff.mp allocated
    obtain ⟨sockets, opened, first, rest, chained, nodup, bound, cap, kept, back, apart⟩ :=
      grown_sound sound fresh rfl room made
    obtain ⟨head, slot, found, none, later⟩ := chained
    obtain ⟨away, nodup'⟩ := List.nodup_cons.mp nodup
    have inside := (List.getElem?_eq_some_iff.mp found).1
    rw [head] at taken
    simp only [Int.toNat_natCast, found] at taken
    split at taken
    · cases taken
    · have gens : slot.gen ≤ run.loop.opened := by
        rcases back first slot found with old | zero
        · exact sound.gens first slot old
        · omega
      have next : u32 (slot.gen + 1) = slot.gen + 1 := by
        unfold u32
        omega
      rw [next, if_neg (Nat.succ_ne_zero _)] at taken
      cases taken
      have strange : run.loop.sockets sock = Option.none := by
        by_contra known
        have old := (sound.handle sock known).2
        omega
      have mine : ∀ s, s ≠ sock → grown.sockets s = run.loop.sockets s := by
        intro s other
        rw [sockets]
        exact if_neg other
      refine ⟨rest, later.set away _, nodup', ?_, ?_, ?_, ?_, ?_, ?_⟩
      · show (grown.unixSlots.set first _).length ≤ rest.length + grown.opened
        rw [List.length_set, opened]
        show _ ≤ rest.length + (run.loop.opened + 1)
        omega
      · show (grown.unixSlots.set first _).length ≤ 64 ∨ (grown.unixSlots.set first _).length ≤ 2 * grown.opened
        rw [List.length_set, opened]
        exact cap.imp_right (fun small => Nat.le_trans small (Nat.mul_le_mul_left 2 (Nat.le_succ _)))
      · intro i slot' here
        show slot'.gen ≤ grown.opened
        rw [opened]
        have here' : (grown.unixSlots.set first ⟨sock, slot.gen + 1, -1⟩)[i]? = some slot' := here
        cases decEq first i with
        | isTrue same =>
          subst same
          rw [List.getElem?_set_self inside] at here'
          cases here'
          exact Nat.succ_le_succ gens
        | isFalse other =>
          rw [List.getElem?_set_ne other] at here'
          rcases back i slot' here' with old | zero
          · exact Nat.le_trans (sound.gens i slot' old) (Nat.le_succ _)
          · rw [zero]
            exact Nat.zero_le _
      · intro s known
        show 0 < s ∧ s ≤ grown.opened
        rw [opened]
        have known' : (if s = sock then some (⟨(first : Int), slot.gen + 1⟩ : Socket)
          else grown.sockets s) ≠ Option.none := known
        split at known'
        · rename_i same
          rw [same]
          exact ⟨Nat.succ_pos _, Nat.le_refl _⟩
        · rename_i other
          rw [mine s other] at known'
          have old := sound.handle s known'
          exact ⟨old.1, Nat.le_trans old.2 (Nat.le_succ _)⟩
      · intro s socket here valid
        have here' : (if s = sock then some (⟨(first : Int), slot.gen + 1⟩ : Socket)
          else grown.sockets s) = some socket := here
        show ∃ slot', (grown.unixSlots.set first ⟨sock, slot.gen + 1, -1⟩)[_]? = some slot' ∧ _
        split at here'
        · rename_i same
          cases here'
          refine ⟨⟨sock, slot.gen + 1, -1⟩, ?_, same.symm, rfl, ?_⟩
          · rw [Int.toNat_natCast, List.getElem?_set_self inside]
          · rw [Int.toNat_natCast]
            exact away
        · rename_i other
          rw [mine s other] at here'
          obtain ⟨held, place, isMine, gen, out⟩ := sound.owned s socket here' valid
          have notFree := apart _ (List.getElem?_eq_some_iff.mp place).1 out
          have different : first ≠ socket.unixSlot.toNat := by
            intro same
            exact notFree (by rw [← same]; exact List.mem_cons_self)
          refine ⟨held, ?_, isMine, gen, fun inRest => notFree (List.mem_cons_of_mem _ inRest)⟩
          rw [List.getElem?_set_ne different]
          exact kept _ _ place
      · intro pair held
        rcases List.mem_append.mp held with old | isNew
        · obtain ⟨known, i, gen, was, key, small, some, place, upTo, living, dead⟩ :=
            sound.issued pair old
          have other : pair.1 ≠ sock := by omega
          have alive : ∀ {loop : Loop}, loop.sockets pair.1 = run.loop.sockets pair.1 →
              (loop.alive pair.1 ↔ run.loop.alive pair.1) := by
            intro loop same
            unfold Loop.alive
            rw [same]
          have same : ((({ grown with unixSlotFree := slot.nextFree } : Loop).putSlot first
              ⟨sock, slot.gen + 1, -1⟩).putSocket sock ⟨(first : Int), slot.gen + 1⟩).sockets pair.1 =
                run.loop.sockets pair.1 := (if_neg other).trans (mine pair.1 other)
          refine ⟨⟨known.1, ?_⟩, i, gen, ?_⟩
          · show pair.1 ≤ grown.opened
            rw [opened]
            exact Nat.le_trans known.2 (Nat.le_succ _)
          · cases decEq first i with
            | isTrue here =>
              subst here
              have wasHere : was = slot := Option.some.inj ((kept first was place).symm.trans found)
              subst wasHere
              refine ⟨⟨sock, was.gen + 1, -1⟩, key, small, some,
                List.getElem?_set_self inside, Nat.le_trans upTo (Nat.le_succ _), fun lives => ?_,
                fun equal => ?_⟩
              · exact same.trans (living ((alive same).mp lives))
              · have equal' : was.gen + 1 = gen := equal
                omega
            | isFalse elsewhere =>
              refine ⟨was, key, small, some, ?_, upTo, fun lives => ?_, fun equal => ?_⟩
              · show (grown.unixSlots.set first _)[i]? = _
                rw [List.getElem?_set_ne elsewhere]
                exact kept i was place
              · exact same.trans (living ((alive same).mp lives))
              · exact (dead equal).imp_left (alive same).mpr
        · rw [List.mem_singleton.mp isNew]
          have socket : ((({ grown with unixSlotFree := slot.nextFree } : Loop).putSlot first
              ⟨sock, slot.gen + 1, -1⟩).putSocket sock ⟨(first : Int), slot.gen + 1⟩).sockets sock =
                some ⟨(first : Int), slot.gen + 1⟩ := if_pos rfl
          have small : first + 1 < 0x80000000 := by omega
          have cookie : unixCookie ⟨(first : Int), slot.gen + 1⟩ =
              (slot.gen + 1) * 0x100000000 + (first + 1) := by
            unfold unixCookie
            rw [if_neg (by simp)]
            show (slot.gen + 1) * 0x100000000 + u32 (first + 1) = _
            unfold u32
            omega
          refine ⟨⟨Nat.succ_pos _, ?_⟩, first, slot.gen + 1, ⟨sock, slot.gen + 1, -1⟩, ?_, small,
            Nat.succ_pos _, List.getElem?_set_self inside, Nat.le_refl _, fun _ => socket, fun _ =>
              .inl ⟨_, socket, Int.natCast_nonneg first⟩⟩
          · show sock ≤ grown.opened
            rw [opened]
            exact Nat.le_refl _
          · dsimp only
            rw [socket, Option.map_some, Option.getD_some, cookie]

theorem Sound.die {run : Run} (sound : Sound run chain) (sock : Nat) :
    ∃ chain', Sound (run.step (.die sock)) chain' := by
  show ∃ chain', Sound { run with loop := unixSlotRelease run.loop sock } chain'
  unfold unixSlotRelease
  cases held : run.loop.sockets sock with
  | none => exact ⟨chain, sound⟩
  | some socket =>
    dsimp only
    split
    · exact ⟨chain, sound⟩
    rename_i valid
    obtain ⟨slot, found, mine, gen, away⟩ := sound.owned sock socket held (Int.not_lt.mp valid)
    have known := sound.handle sock (by rw [held]; exact Option.some_ne_none _)
    obtain ⟨i, index⟩ : ∃ i : Nat, socket.unixSlot = i := ⟨_, (Int.toNat_of_nonneg (Int.not_lt.mp valid)).symm⟩
    rw [index, Int.toNat_natCast] at found away
    rw [index, Int.toNat_natCast, found]
    have inside := (List.getElem?_eq_some_iff.mp found).1
    have cleared : (if (slot.sock = sock && slot.gen = socket.unixGen) = true then 0 else slot.sock) = 0 :=
      if_pos (by rw [mine, gen]; simp)
    simp only [cleared]
    have others : ∀ s, s ≠ sock →
        (if s = sock then some (⟨-1, 0⟩ : Socket) else run.loop.sockets s) = run.loop.sockets s :=
      fun s other => if_neg other
    refine ⟨i :: chain, ⟨rfl, _, List.getElem?_set_self inside, rfl, sound.chained.set away _⟩,
      List.nodup_cons.mpr ⟨away, sound.nodup⟩, ?_, ?_, ?_, ?_, ?_, ?_⟩
    · show (run.loop.unixSlots.set i _).length ≤ (i :: chain).length + run.loop.opened
      rw [List.length_set, List.length_cons]
      have bound := sound.bound
      omega
    · show (run.loop.unixSlots.set i _).length ≤ 64 ∨ (run.loop.unixSlots.set i _).length ≤ _
      rw [List.length_set]
      exact sound.cap
    · intro j slot' here
      have here' : (run.loop.unixSlots.set i _)[j]? = some slot' := here
      cases decEq i j with
      | isTrue same =>
        subst same
        rw [List.getElem?_set_self inside] at here'
        cases here'
        exact sound.gens i slot found
      | isFalse other =>
        rw [List.getElem?_set_ne other] at here'
        exact sound.gens j slot' here'
    · intro s present
      cases decEq s sock with
      | isTrue same =>
        rw [same]
        exact known
      | isFalse other => exact sound.handle s (fun gone => present ((others s other).trans gone))
    · intro s socket' here live
      have other : s ≠ sock := by
        intro same
        have here' := here.symm.trans (if_pos same)
        cases here'
        exact absurd live (by decide)
      obtain ⟨slot', found', mine', gen', away'⟩ :=
        sound.owned s socket' ((others s other).symm.trans here) live
      have different : i ≠ socket'.unixSlot.toNat := by
        intro same
        rw [← same, found] at found'
        cases found'
        exact other (mine'.symm.trans mine)
      refine ⟨slot', ?_, mine', gen', fun inside' => ?_⟩
      · show (run.loop.unixSlots.set i _)[_]? = _
        rw [List.getElem?_set_ne different]
        exact found'
      · rcases List.mem_cons.mp inside' with same | old
        · exact different same.symm
        · exact away' old
    · intro pair issued
      obtain ⟨born, j, given, was, key, small, some, place, upTo, living, dead⟩ := sound.issued pair issued
      have lasts : ∀ {loop : Loop}, loop.alive pair.1 → loop.sockets = (fun s =>
          if s = sock then Option.some (⟨-1, 0⟩ : Socket) else run.loop.sockets s) →
          loop.sockets pair.1 = Option.some ⟨j, given⟩ := by
        rintro loop ⟨socket', here, live⟩ all
        rw [all] at here ⊢
        have other : pair.1 ≠ sock := by
          intro same
          have here' := here.symm.trans (if_pos same)
          cases here'
          exact absurd live (by decide)
        exact (others _ other).trans (living ⟨socket', (others _ other).symm.trans here, live⟩)
      cases decEq i j with
      | isTrue same =>
        subst same
        rw [found] at place
        cases place
        exact ⟨born, i, given, _, key, small, some, List.getElem?_set_self inside, upTo,
          fun lives => lasts lives rfl, fun _ => .inr rfl⟩
      | isFalse elsewhere =>
        refine ⟨born, j, given, was, key, small, some, ?_, upTo, fun lives => lasts lives rfl,
          fun equal => (dead equal).imp_left (fun lives => ?_)⟩
        · show (run.loop.unixSlots.set i _)[j]? = _
          rw [List.getElem?_set_ne elsewhere]
          exact place
        · -- the socket that dies has slot `i`, so its key is not one of slot `j`
          have notDying : pair.1 ≠ sock := by
            intro dying
            have mineHere := living lives
            rw [dying, held] at mineHere
            cases mineHere
            exact elsewhere (Int.ofNat.inj index).symm
          obtain ⟨socket', here, live⟩ := lives
          exact ⟨socket', (others _ notDying).trans here, live⟩

theorem unixSlotAlloc_opened {sock : Nat} {room : Bool}
    (made : unixSlotAlloc loop sock room = some loop') : loop'.opened = loop.opened := by
  unfold unixSlotAlloc at made
  obtain ⟨grown, more, taken⟩ := Option.bind_eq_some_iff.mp made
  have same : grown.opened = loop.opened := by
    split at more
    · simp only [unixSlotGrow] at more
      split at more
      · cases more
        rfl
      · cases more
    · cases more
      rfl
  dsimp only at taken
  split at taken
  · cases taken
  · split at taken
    · cases taken
    · cases taken
      exact same

theorem unixSlotRelease_opened (loop : Loop) (sock : Nat) :
    (unixSlotRelease loop sock).opened = loop.opened := by
  unfold unixSlotRelease
  repeat' split
  all_goals rfl

theorem opened_step (run : Run) (op : Op) : run.loop.opened ≤ (run.step op).loop.opened := by
  cases op with
  | create room =>
    simp only [Run.step]
    split
    · exact Nat.le_succ _
    · rename_i made
      rw [unixSlotAlloc_opened made]
      exact Nat.le_succ _
  | die sock => exact Nat.le_of_eq (unixSlotRelease_opened run.loop sock).symm

theorem opened_steps (run : Run) (ops : List Op) :
    run.loop.opened ≤ (run.steps ops).loop.opened := by
  induction ops generalizing run with
  | nil => exact Nat.le_refl _
  | cons op rest ih => exact Nat.le_trans (opened_step run op) (ih (run.step op))

/-- Fewer sockets are ever opened than a slot has generations or a loop has slots. -/
theorem Sound.step {run : Run} (sound : Sound run chain) (op : Op)
    (few : (run.step op).loop.opened < 0x40000000) : ∃ chain', Sound (run.step op) chain' := by
  cases op with
  | create room =>
    refine sound.create room ?_
    have counted : (run.step (.create room)).loop.opened = run.loop.opened + 1 := by
      simp only [Run.step]
      split
      · rfl
      · rename_i made
        rw [unixSlotAlloc_opened made]
        rfl
    rw [← counted]
    exact few
  | die sock => exact sound.die sock

theorem Sound.steps {run : Run} (sound : Sound run chain) (ops : List Op)
    (few : (run.steps ops).loop.opened < 0x40000000) : ∃ chain', Sound (run.steps ops) chain' := by
  induction ops generalizing run chain with
  | nil => exact ⟨chain, sound⟩
  | cons op rest ih =>
    have before := Nat.lt_of_le_of_lt (opened_steps (run.step op) rest) few
    obtain ⟨chain', next⟩ := sound.step op before
    exact ih next few

theorem sound_start : Sound Run.start [] where
  chained := by
    show (-1 : Int) < 0
    decide
  nodup := List.nodup_nil
  bound := Nat.le_refl _
  cap := .inl (Nat.zero_le _)
  gens := fun i slot found => absurd found (by simp [Run.start])
  handle := fun s present => absurd rfl present
  owned := fun s socket here => absurd here (by simp [Run.start])
  issued := fun pair held => absurd held List.not_mem_nil

/-- In every run an event for a socket finds that socket while it lives, and nothing
once it is dead, whichever socket has its slot by then. -/
theorem events_find_their_socket (ops : List Op)
    (few : (Run.start.steps ops).loop.opened < 0x40000000) (sock key : Nat)
    (issued : (sock, key) ∈ (Run.start.steps ops).issued) :
    ((Run.start.steps ops).loop.alive sock →
        unixEventSock (Run.start.steps ops).loop key = sock) ∧
      (¬ (Run.start.steps ops).loop.alive sock →
        unixEventSock (Run.start.steps ops).loop key = 0) := by
  obtain ⟨chain, sound⟩ := sound_start.steps ops few
  exact (sound.issued _ issued).finds sound

/-- The second socket has the slot of the first. -/
def reused : List Op := [.create true, .die 1, .create true]

theorem reused_events : unixEventSock (Run.start.steps reused).loop 0x100000001 = 0 ∧
    unixEventSock (Run.start.steps reused).loop 0x200000001 = 2 := by
  constructor
  · refine (events_find_their_socket reused (by decide) 1 0x100000001 (by decide)).2 ?_
    rintro ⟨socket, here, live⟩
    have dead : (Run.start.steps reused).loop.sockets 1 = some ⟨-1, 0⟩ := by decide
    rw [dead] at here
    cases here
    exact absurd live (by decide)
  · exact (events_find_their_socket reused (by decide) 2 0x200000001 (by decide)).1
      ⟨⟨0, 2⟩, by decide, by decide⟩

end Kynovo.Event.Slots
