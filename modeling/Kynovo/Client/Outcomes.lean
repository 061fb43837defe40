import Kynovo.Client.Machine
import Kynovo.Lib.Runs

/-! What becomes of the requests a client takes: each leaves the pending list once, the
failures are counted, and the discovery flag stands for a discovery in flight. -/
namespace Kynovo.Client.Outcomes
open Kynovo.Server.Command (RequestType)
open Kynovo.Lib.Runs
open Kynovo.Proto.ClientCodec
open Kynovo.Client.Endpoints
open Kynovo.Client.Machine

/-- A request left without an OK, NOT_FOUND or CONFLICT answer. -/
def failed : Outcome → Bool
  | .answered status => status ≠ statusOk ∧ status ≠ statusNotFound ∧ status ≠ statusConflict
  | _ => true

/-- A conflict is counted like a failure. -/
def counted (outcome : Outcome) : Bool := failed outcome || outcome = .answered statusConflict

/-- The part of a client that the accounting is about. -/
structure Ledger where
  accepted : List Ticket
  freed : List (Ticket × Outcome)
  pending : List Ticket
  errorCount : UInt32
  discovering : Bool

def ledgerOf (app : App) : Ledger :=
  { accepted := app.accepted.map Pending.ticket
    freed := app.freed.map fun departure => (departure.1.ticket, departure.2)
    pending := app.pending.map Pending.ticket
    errorCount := app.errorCount
    discovering := app.discovering }

/-- Every accepted request is in flight or has left, once; every failure and conflict is
counted; and the flag is up exactly while a discovery is in flight. -/
structure Balanced (ledger : Ledger) : Prop where
  once : ledger.accepted.Perm (ledger.freed.map Prod.fst ++ ledger.pending)
  counts : ledger.errorCount = UInt32.ofNat (ledger.freed.countP fun departure => counted departure.2)
  flag : ledger.discovering = true ↔ ∃ ticket ∈ ledger.pending, ticket.discovery = true
  first : ∀ ticket ∈ ledger.pending.tail, ticket.discovery = false
  typed : ∀ ticket ∈ ledger.pending, ticket.discovery = true → ticket.type = .members

theorem start_balanced (seeds : List Endpoint) : Balanced (ledgerOf (start seeds)) := by
  constructor
  · exact List.Perm.refl _
  · rfl
  · simp [ledgerOf, start]
  · simp [ledgerOf, start]
  · simp [ledgerOf, start]

/-- A request is accepted. -/
def Ledger.accept (ledger : Ledger) (ticket : Ticket) : Ledger :=
  { ledger with accepted := ledger.accepted ++ [ticket], pending := ledger.pending ++ [ticket] }

theorem Balanced.accept_once {ledger : Ledger} (balanced : Balanced ledger) (ticket : Ticket) :
    (ledger.accepted ++ [ticket]).Perm
      (ledger.freed.map Prod.fst ++ (ledger.pending ++ [ticket])) := by
  rw [← List.append_assoc]
  exact balanced.once.append_right [ticket]

/-- A request of the user. -/
theorem Balanced.accept {ledger : Ledger} (balanced : Balanced ledger) {ticket : Ticket}
    (plain : ticket.discovery = false) : Balanced (ledger.accept ticket) := by
  constructor
  · exact balanced.accept_once ticket
  · exact balanced.counts
  · show ledger.discovering = true ↔ ∃ other ∈ ledger.pending ++ [ticket], other.discovery = true
    rw [balanced.flag]
    simp [plain]
  · show ∀ other ∈ (ledger.pending ++ [ticket]).tail, other.discovery = false
    intro other member
    cases waiting : ledger.pending with
    | nil =>
      rw [waiting] at member
      cases member
    | cons head rest =>
      rw [waiting, List.cons_append, List.tail_cons] at member
      rcases List.mem_append.mp member with before | last
      · exact balanced.first other (by rw [waiting]; exact before)
      · rw [List.mem_singleton.mp last]
        exact plain
  · intro other member isDiscovery
    rcases List.mem_append.mp member with before | last
    · exact balanced.typed other before isDiscovery
    · rw [List.mem_singleton.mp last, plain] at isDiscovery
      cases isDiscovery

/-- The client's own discovery, which starts on an empty list. -/
theorem Balanced.discover {ledger : Ledger} (balanced : Balanced ledger) {ticket : Ticket}
    (idle : ledger.pending = []) (own : ticket.discovery = true) (type : ticket.type = .members) :
    Balanced { ledger.accept ticket with discovering := true } := by
  have alone : ledger.pending ++ [ticket] = [ticket] := by rw [idle, List.nil_append]
  constructor
  · exact balanced.accept_once ticket
  · exact balanced.counts
  · show true = true ↔ ∃ other ∈ ledger.pending ++ [ticket], other.discovery = true
    simp [own]
  · show ∀ other ∈ (ledger.pending ++ [ticket]).tail, other.discovery = false
    rw [alone]
    intro other member
    cases member
  · show ∀ other ∈ ledger.pending ++ [ticket], other.discovery = true → other.type = .members
    rw [alone]
    intro other member _
    rw [List.mem_singleton.mp member]
    exact type

/-- Some requests leave, each counted as its outcome asks, and the flag is put right. -/
theorem Balanced.leave {ledger : Ledger} (balanced : Balanced ledger)
    {gone : List (Ticket × Outcome)} {kept : List Ticket} {discovering : Bool}
    (split : ledger.pending.Perm (gone.map Prod.fst ++ kept))
    (inOrder : List.Sublist kept ledger.pending)
    (flag : discovering = true ↔ ∃ ticket ∈ kept, ticket.discovery = true) :
    Balanced
      { accepted := ledger.accepted, freed := ledger.freed ++ gone, pending := kept
        errorCount := ledger.errorCount +
          UInt32.ofNat (gone.countP fun departure => counted departure.2)
        discovering } := by
  constructor
  · show ledger.accepted.Perm ((ledger.freed ++ gone).map Prod.fst ++ kept)
    rw [List.map_append, List.append_assoc]
    exact balanced.once.trans (split.append_left _)
  · show ledger.errorCount + _ = _
    rw [balanced.counts, List.countP_append, UInt32.ofNat_add]
  · exact flag
  · intro ticket member
    exact balanced.first ticket (inOrder.tail.subset member)
  · intro ticket member
    exact balanced.typed ticket (inOrder.subset member)

/-- A discovery in flight stands first. -/
theorem Balanced.head_of_discovery {ledger : Ledger} (balanced : Balanced ledger)
    {ticket : Ticket} (member : ticket ∈ ledger.pending) (own : ticket.discovery = true) :
    ledger.pending.head? = some ticket := by
  cases waiting : ledger.pending with
  | nil =>
    rw [waiting] at member
    cases member
  | cons head rest =>
    rw [waiting] at member
    rcases List.mem_cons.mp member with rfl | later
    · rfl
    · have plain := balanced.first ticket (by rw [waiting]; exact later)
      rw [own] at plain
      cases plain

/-- Every request leaves with a counted outcome. -/
theorem Balanced.leaveAll {ledger : Ledger} (balanced : Balanced ledger) {outcome : Outcome}
    (counts : counted outcome = true) :
    Balanced
      { accepted := ledger.accepted
        freed := ledger.freed ++ ledger.pending.map fun ticket => (ticket, outcome)
        pending := []
        errorCount := ledger.errorCount + UInt32.ofNat ledger.pending.length
        discovering := false } := by
  have number : (ledger.pending.map fun ticket => (ticket, outcome)).countP
      (fun departure => counted departure.2) = ledger.pending.length := by
    rw [List.countP_eq_length.mpr]
    · simp
    · intro departure member
      obtain ⟨ticket, -, rfl⟩ := List.mem_map.mp member
      exact counts
  rw [← number]
  apply balanced.leave
  · simp [Function.comp_def]
  · exact List.nil_sublist _
  · simp

/-! ## The handlers on the ledger -/

theorem ledgerOf_markAllUnsent (app : App) :
    ledgerOf (kClientMarkAllUnsent app) = ledgerOf app := by
  simp [ledgerOf, kClientMarkAllUnsent, Function.comp_def, Pending.ticket]

theorem unsend_tickets (id : UInt32) (pending : List Pending) :
    (unsend id pending).map Pending.ticket = pending.map Pending.ticket := by
  induction pending with
  | nil => rfl
  | cons first rest ih =>
    unfold unsend
    split
    · rfl
    · rw [List.map_cons, ih, List.map_cons]

theorem sendEach_tickets (takes : Pending → Bool) (nowUs : UInt64) (pending : List Pending) :
    (sendEach takes nowUs pending).1.map Pending.ticket = pending.map Pending.ticket := by
  induction pending with
  | nil => rfl
  | cons first rest ih =>
    unfold sendEach
    split
    · rw [List.map_cons, ih, List.map_cons]
    · split
      · rw [List.map_cons, ih, List.map_cons]
        rfl
      · rfl

theorem ledgerOf_sendPending (app : App) (takes : Pending → Bool) :
    ledgerOf (kClientSendPending app takes).1 = ledgerOf app := by
  unfold kClientSendPending
  split
  · rfl
  · have same := sendEach_tickets takes app.nowUs app.pending
    simp only [ledgerOf, same]

theorem ledgerOf_connect (app : App) (opens : Bool) :
    ledgerOf (kClientConnect app opens).1 = ledgerOf app := by
  unfold kClientConnect
  split
  · rfl
  · rfl

theorem ledgerOf_retryArm {app armed : App} (arms : kClientRetryArm app = some armed) :
    ledgerOf armed = ledgerOf app := by
  unfold kClientRetryArm at arms
  split at arms
  · cases arms
  · cases arms
    rfl

/-- A queued request is refused or accepted; on an empty list only the building can fail. -/
theorem kClientQueue_ledger (app : App) (type : RequestType) (discovery : Bool) (build : Build) :
    (ledgerOf (kClientQueue app type discovery build).1 = ledgerOf app ∧
        (app.pending = [] → (kClientQueue app type discovery build).2 ≠ 0)) ∨
      ∃ id, ledgerOf (kClientQueue app type discovery build).1 =
          (ledgerOf app).accept ⟨id, type, discovery⟩ ∧
        (kClientQueue app type discovery build).2 = 0 := by
  unfold kClientQueue
  by_cases busy : app.pending ≠ [] ∧ app.inflightLimit ≤ 1
  · rw [if_pos busy]
    exact Or.inl ⟨rfl, fun idle => absurd idle busy.1⟩
  · rw [if_neg busy]
    by_cases full : (kClientInflightCount app : Int) ≥ kClientInflightLimit app
    · rw [if_pos full]
      left
      refine ⟨rfl, fun idle => ?_⟩
      have none : kClientInflightCount app = 0 := by simp [kClientInflightCount, idle]
      rw [none] at full
      unfold kClientInflightLimit at full
      split at full
      · omega
      · omega
    · rw [if_neg full]
      cases build with
      | noMemory => exact Or.inl ⟨rfl, fun _ => Int.neg_ne_zero.mpr Int.one_ne_zero⟩
      | refused => exact Or.inl ⟨rfl, fun _ => Int.neg_ne_zero.mpr Int.one_ne_zero⟩
      | built =>
        right
        refine ⟨app.nextId + 1, ?_, rfl⟩
        simp [ledgerOf, kClientAppendPending, Ledger.accept, Pending.ticket]

theorem discover_balanced {app : App} (balanced : Balanced (ledgerOf app)) (build : Build) :
    Balanced (ledgerOf (kClientDiscover app build)) := by
  unfold kClientDiscover
  by_cases busy : (app.pending ≠ [] || app.discovering) = true
  · rw [if_pos busy]
    exact balanced
  · rw [if_neg busy]
    have idle : app.pending = [] := by
      by_contra waiting
      exact busy (by simp [waiting])
    have quiet : app.discovering = false := by
      cases flag : app.discovering with
      | false => rfl
      | true => exact absurd (by simp [flag]) busy
    have queued := kClientQueue_ledger { app with discovering := true } .members true build
    dsimp only
    rcases queued with ⟨same, refusal⟩ | ⟨id, added, took⟩
    · rw [if_pos (refusal idle)]
      have unchanged : ledgerOf { (kClientQueue { app with discovering := true } .members true build).1
          with discovering := false } = { ledgerOf { app with discovering := true } with
            discovering := false } := by
        rw [← same]
        rfl
      rw [unchanged]
      have restored : { ledgerOf { app with discovering := true } with discovering := false } =
          ledgerOf app := by
        simp [ledgerOf, quiet]
      rw [restored]
      exact balanced
    · rw [if_neg (by rw [took]; decide), added]
      have empty : (ledgerOf app).pending = [] := by simp [ledgerOf, idle]
      exact @Balanced.discover (ledgerOf app) balanced ⟨id, .members, true⟩ empty rfl rfl

/-- The requests a close takes along are counted, and the flag comes down with them: a
discovery in flight is the first request, the one the close looks at. -/
theorem dropPending_balanced {app : App} (balanced : Balanced (ledgerOf app)) :
    Balanced (ledgerOf (dropPending app)) := by
  have quiet : (if app.pending.head?.any (fun first => first.type = .members) then false
      else app.discovering) = false := by
    split
    · rfl
    · rename_i other
      cases flag : app.discovering with
      | false => rfl
      | true =>
        obtain ⟨ticket, member, own⟩ := balanced.flag.mp flag
        have head := balanced.head_of_discovery member own
        have type := balanced.typed ticket member own
        rw [ledgerOf, List.head?_map] at head
        obtain ⟨first, firstHead, same⟩ := Option.map_eq_some_iff.mp head
        rw [firstHead] at other
        rw [← same] at type
        simp only [Pending.ticket] at type
        simp [type] at other
  have dropped := balanced.leaveAll (rfl : counted .closed = true)
  have same : ledgerOf (dropPending app) =
      { accepted := (ledgerOf app).accepted
        freed := (ledgerOf app).freed ++ (ledgerOf app).pending.map fun ticket => (ticket, .closed)
        pending := []
        errorCount := (ledgerOf app).errorCount + UInt32.ofNat (ledgerOf app).pending.length
        discovering := false } := by
    rw [← quiet]
    simp [ledgerOf, dropPending, freeAll, Function.comp_def]
  rw [same]
  exact dropped

theorem onClosed_balanced {app : App} (balanced : Balanced (ledgerOf app)) :
    Balanced (ledgerOf (kClientOnClosed app)) := by
  have dropped := @dropPending_balanced { app with sock := false, connected := false } balanced
  unfold kClientOnClosed
  dsimp only
  by_cases drops : (!app.preservePending && app.pending ≠ []) = true
  · rw [if_pos drops]
    split
    · exact dropped
    · exact dropped
  · rw [if_neg drops]
    split
    · exact balanced
    · exact balanced

theorem transportClose_balanced {app : App} (balanced : Balanced (ledgerOf app))
    (reported : Bool) : Balanced (ledgerOf (transportClose app reported)) := by
  unfold transportClose
  cases reported with
  | true => exact @onClosed_balanced { app with sock := false } balanced
  | false => exact balanced

/-- A found request splits the list at its place. -/
theorem findPending_split {app : App} {id : UInt32} {pending : Pending}
    (found : findPending app id = some pending) :
    pending.id = id ∧ ∃ front back, app.pending = front ++ pending :: back ∧
      app.pending.eraseP (fun other => other.id = pending.id) = front ++ back := by
  have same : pending.id = id := by simpa using List.find?_some found
  obtain ⟨-, front, back, whole, before⟩ := List.find?_eq_some_iff_append.mp found
  refine ⟨same, front, back, whole, ?_⟩
  rw [whole, List.eraseP_append_right]
  · simp
  · intro other member
    simpa [same] using before other member

theorem ledgerOf_removePending {app : App} {pending : Pending} {front back : List Pending}
    (erased : app.pending.eraseP (fun other => other.id = pending.id) = front ++ back)
    (outcome : Outcome) :
    ledgerOf (kClientRemovePending app pending outcome) =
      { accepted := (ledgerOf app).accepted
        freed := (ledgerOf app).freed ++ [(pending.ticket, outcome)]
        pending := (front ++ back).map Pending.ticket
        errorCount := app.errorCount
        discovering := app.discovering } := by
  simp [ledgerOf, kClientRemovePending, erased]

/-- An answered request leaves. The error count has been raised already if the outcome asks
for it, and a MEMBERS request that is not the client's own leaves no discovery behind. -/
theorem release_balanced {app : App} {id : UInt32} {pending : Pending} {outcome : Outcome}
    {errorCount : UInt32} (balanced : Balanced { ledgerOf app with errorCount })
    (found : findPending app id = some pending)
    (raised : app.errorCount = if counted outcome then errorCount + 1 else errorCount)
    (alone : pending.type = .members → pending.discovery = false → app.discovering = false) :
    Balanced (ledgerOf (release app pending outcome)) := by
  obtain ⟨-, front, back, whole, erased⟩ := findPending_split found
  have waiting : { ledgerOf app with errorCount }.pending =
      front.map Pending.ticket ++ pending.ticket :: back.map Pending.ticket := by
    simp [ledgerOf, whole]
  have removed := @ledgerOf_removePending { app with discovering :=
    if pending.type = .members then false else app.discovering } pending front back erased outcome
  have kept : (front ++ back).map Pending.ticket =
      front.map Pending.ticket ++ back.map Pending.ticket := List.map_append
  have split : { ledgerOf app with errorCount }.pending.Perm
      ([(pending.ticket, outcome)].map Prod.fst ++ (front ++ back).map Pending.ticket) := by
    rw [waiting, kept]
    exact List.perm_middle
  have inOrder : List.Sublist ((front ++ back).map Pending.ticket)
      { ledgerOf app with errorCount }.pending := by
    rw [waiting, kept]
    exact (List.Sublist.refl _).append (List.sublist_cons_self _ _)
  have flag : (if pending.type = .members then false else app.discovering) = true ↔
      ∃ ticket ∈ (front ++ back).map Pending.ticket, ticket.discovery = true := by
    have before := balanced.flag
    rw [waiting] at before
    have flagBefore : app.discovering = true ↔ ∃ ticket ∈
        front.map Pending.ticket ++ pending.ticket :: back.map Pending.ticket,
        ticket.discovery = true := before
    by_cases own : pending.discovery = true
    · -- the client's own discovery: it stands first, and there is no other
      have member : pending.ticket ∈ { ledgerOf app with errorCount }.pending := by
        rw [waiting]
        simp
      have type : pending.type = .members := balanced.typed _ member own
      have head := balanced.head_of_discovery member own
      rw [if_pos type, kept]
      apply iff_of_false (by decide)
      rintro ⟨ticket, later, alsoOwn⟩
      have plain : ticket.discovery = false := by
        apply balanced.first
        rw [waiting]
        cases front with
        | nil => exact later
        | cons first rest =>
          rcases List.mem_append.mp later with early | late
          · rcases List.mem_cons.mp early with rfl | rest
            · have again := balanced.first pending.ticket (by rw [waiting]; simp)
              rw [show pending.ticket.discovery = true from own] at again
              cases again
            · exact List.mem_append_left _ rest
          · exact List.mem_append_right _ (List.mem_cons_of_mem _ late)
      rw [alsoOwn] at plain
      cases plain
    · have plain : pending.discovery = false := by simpa using own
      have same : (∃ ticket ∈ (front ++ back).map Pending.ticket, ticket.discovery = true) ↔
          app.discovering = true := by
        rw [flagBefore, kept]
        constructor
        · rintro ⟨ticket, member, isOwn⟩
          refine ⟨ticket, ?_, isOwn⟩
          rcases List.mem_append.mp member with early | late
          · exact List.mem_append_left _ early
          · exact List.mem_append_right _ (List.mem_cons_of_mem _ late)
        · rintro ⟨ticket, member, isOwn⟩
          refine ⟨ticket, ?_, isOwn⟩
          rcases List.mem_append.mp member with early | late
          · exact List.mem_append_left _ early
          · rcases List.mem_cons.mp late with rfl | late
            · rw [show pending.ticket.discovery = false from plain] at isOwn
              cases isOwn
            · exact List.mem_append_right _ late
      rw [same]
      split
      · rename_i members
        rw [alone members plain]
      · exact Iff.rfl
  have left := balanced.leave split inOrder flag
  have total : errorCount + UInt32.ofNat
      ([(pending.ticket, outcome)].countP fun departure => counted departure.2) =
        app.errorCount := by
    rw [raised]
    cases counts : counted outcome with
    | true => simp [counts]
    | false => simp [counts]
  have result : ledgerOf (release app pending outcome) =
      { accepted := (ledgerOf app).accepted
        freed := (ledgerOf app).freed ++ [(pending.ticket, outcome)]
        pending := (front ++ back).map Pending.ticket
        errorCount := app.errorCount
        discovering := if pending.type = .members then false else app.discovering } := removed
  rw [result, ← total]
  exact left

/-! ## Runs -/

/-- An event that loses no request uncounted and takes no flag from a discovery in flight:
the retries are not used up when a request depends on them, and a MEMBERS request of the user
is not settled while the client's own is in flight. -/
def Kept (app : App) : Event → Prop
  | .frame type payload => ∀ pending response, Answers app type payload pending response →
      (response.status = statusRedirect → response.host = [] ∨ response.port = 0 →
        app.retryCount < clientRetryMax) ∧
      (response.status ≠ statusRedirect → pending.type = .members → pending.discovery = false →
        app.discovering = false)
  | .reconnect opens _ => app.reconnectPending = true → app.sock = false → opens = false →
      app.pending ≠ [] → app.retryCount < clientRetryMax
  | .sweep => ∀ late ∈ app.pending, expired app.nowUs late = true → late.type = .members →
      ∀ pending ∈ app.pending, pending.discovery = true → expired app.nowUs pending = true
  | .retry opens _ _ => app.retryPending = true → app.retryDeadlineUs ≤ app.nowUs →
      app.sock = false → opens = false → app.pending ≠ [] → app.retryCount < clientRetryMax
  | _ => True

instance (app : App) : (event : Event) → Decidable (Kept app event)
  | .frame type payload =>
    decidableAnswers app type payload fun _ _ => inferInstanceAs (Decidable (_ ∧ _))
  | .reconnect _ _ => inferInstanceAs (Decidable (_ = true → _ = false → _ = false → _ ≠ [] → _))
  | .sweep => inferInstanceAs (Decidable (∀ late ∈ app.pending, _ → _ → ∀ pending ∈ app.pending, _ → _))
  | .retry _ _ _ => inferInstanceAs (Decidable (_ = true → _ → _ = false → _ = false → _ ≠ [] → _))
  | .tick _ | .configure _ _ | .queue _ _ | .connect _ | .connected _ | .close _ | .closed
  | .flush _ _ | .stop => .isTrue trivial

theorem counted_answered (status : Nat) :
    counted (.answered status) = true ↔ status ≠ statusOk ∧ status ≠ statusNotFound := by
  unfold counted failed
  by_cases conflict : status = statusConflict
  · simp [conflict, statusConflict, statusOk, statusNotFound]
  · simp [conflict]

theorem settle_balanced {app : App} {type : Nat} {payload : List UInt8} {pending : Pending}
    {response : Response} (balanced : Balanced (ledgerOf app))
    (answers : Answers app type payload pending response)
    (kept : Kept app (.frame type payload)) : Balanced (ledgerOf (settle app pending response)) := by
  obtain ⟨retries, alone⟩ := kept pending response answers
  have found := answers.2.2
  unfold settle
  dsimp only
  by_cases redirect : response.status = statusRedirect
  · -- a redirect is not counted, and the request stays
    have noted : ledgerOf (noteAnswer app pending response.status) = ledgerOf app := by
      simp [ledgerOf, noteAnswer, redirect]
    have retry : (noteAnswer app pending response.status).retryCount = app.retryCount := rfl
    by_cases named : response.status = statusRedirect ∧ response.host ≠ [] ∧ response.port ≠ 0
    · rw [if_pos named]
      have unsent := ledgerOf_markAllUnsent { noteAnswer app pending response.status with
        endpoints := redirectTo (noteAnswer app pending response.status).endpoints
          ⟨response.host, response.port⟩ }
      have same := unsent.trans noted
      rw [← same] at balanced
      exact balanced
    · rw [if_neg named, if_pos redirect]
      have unnamed : response.host = [] ∨ response.port = 0 := by
        by_contra both
        rw [not_or] at both
        exact named ⟨redirect, both⟩
      have room := retries redirect unnamed
      rw [← retry] at room
      rw [← noted] at balanced
      generalize noteAnswer app pending response.status = noted at room balanced
      cases arms : kClientRetryArm noted with
      | none =>
        unfold kClientRetryArm at arms
        rw [if_neg (by omega)] at arms
        cases arms
      | some armed =>
        have tickets := unsend_tickets pending.id armed.pending
        have same : ledgerOf { armed with pending := unsend pending.id armed.pending } =
            ledgerOf armed := by
          simp only [ledgerOf, tickets]
        dsimp only
        rw [same, ledgerOf_retryArm arms]
        exact balanced
  · have named : ¬ (response.status = statusRedirect ∧ response.host ≠ [] ∧ response.port ≠ 0) :=
      fun both => redirect both.1
    rw [if_neg named, if_neg redirect]
    have raised : (noteAnswer app pending response.status).errorCount =
        if counted (.answered response.status) then app.errorCount + 1 else app.errorCount := by
      by_cases good : response.status ≠ statusOk ∧ response.status ≠ statusNotFound
      · rw [if_pos ((counted_answered _).mpr good)]
        exact if_pos ⟨good.1, good.2, redirect⟩
      · rw [if_neg (fun counts => good ((counted_answered _).mp counts))]
        exact if_neg fun all => good ⟨all.1, all.2.1⟩
    have unmoved : Balanced { ledgerOf (noteAnswer app pending response.status) with
        errorCount := app.errorCount } := balanced
    have settled := release_balanced unmoved found raised (alone redirect)
    split
    · exact settled
    · exact settled

/-- An attempt to connect loses no request while retries are left for it. -/
theorem attempt_balanced {app : App} (balanced : Balanced (ledgerOf app)) (opens : Bool)
    (outcome : Outcome) (noSock : app.sock = false)
    (room : opens = false → app.pending ≠ [] → app.retryCount < clientRetryMax) :
    Balanced (ledgerOf (
      let (tried, opened) := kClientConnect app opens
      if opened then tried
      else
        match kClientRetryArm tried with
        | some armed => armed
        | none => freeAll tried outcome)) := by
  have result : kClientConnect app opens = ({ app with sock := opens }, opens) := by
    unfold kClientConnect
    rw [if_neg (by simp [noSock])]
  have after : Balanced (ledgerOf { app with sock := opens }) := balanced
  have retry : ({ app with sock := opens } : App).retryCount = app.retryCount := rfl
  have waiting : ({ app with sock := opens } : App).pending = app.pending := rfl
  rw [result]
  generalize ({ app with sock := opens } : App) = tried at after retry waiting
  dsimp only
  cases opens with
  | true => exact after
  | false =>
    rw [if_neg (by decide)]
    cases arms : kClientRetryArm tried with
    | some armed =>
      dsimp only
      rw [ledgerOf_retryArm arms]
      exact after
    | none =>
      -- the retries are used up: nothing was waiting for them
      have idle : tried.pending = [] := by
        rw [waiting]
        by_contra some
        have left := room rfl some
        unfold kClientRetryArm at arms
        rw [if_neg (by omega)] at arms
        cases arms
      have same : ledgerOf (freeAll tried outcome) = ledgerOf tried := by
        simp [ledgerOf, freeAll, idle]
      dsimp only
      rw [same]
      exact after

theorem pollReconnect_balanced {app : App} {opens reported : Bool}
    (balanced : Balanced (ledgerOf app)) (kept : Kept app (.reconnect opens reported)) :
    Balanced (ledgerOf (pollReconnect app opens reported)) := by
  unfold pollReconnect
  split
  · rename_i due
    split
    · exact transportClose_balanced balanced reported
    · rename_i noSock
      have noSock : app.sock = false := by simpa using noSock
      exact @attempt_balanced { app with reconnectPending := false } balanced opens .reconnectFailed
        noSock (kept due noSock)
  · exact balanced

theorem pollRetry_balanced {app : App} {opens reported : Bool} {takes : Pending → Bool}
    (balanced : Balanced (ledgerOf app)) (kept : Kept app (.retry opens reported takes)) :
    Balanced (ledgerOf (pollRetry app opens reported takes)) := by
  unfold pollRetry
  split
  · rename_i due
    obtain ⟨armedBefore, passed⟩ := Bool.and_eq_true_iff.mp due
    dsimp only
    split
    · have sent := ledgerOf_sendPending { app with retryPending := false } takes
      generalize kClientSendPending { app with retryPending := false } takes = result at sent
      obtain ⟨tried, went⟩ := result
      have after : Balanced (ledgerOf tried) := by
        rw [sent]
        exact balanced
      dsimp only
      split
      · exact after
      · exact transportClose_balanced after reported
    · rename_i noSock
      have noSock : app.sock = false := by simpa using noSock
      have passed : app.retryDeadlineUs ≤ app.nowUs := of_decide_eq_true passed
      exact @attempt_balanced { app with retryPending := false } balanced opens .leaderUnavailable
        noSock (kept armedBefore passed noSock)
  · exact balanced

theorem pollFlush_balanced {app : App} (balanced : Balanced (ledgerOf app)) (reported : Bool)
    (takes : Pending → Bool) : Balanced (ledgerOf (pollFlush app reported takes)) := by
  unfold pollFlush
  split
  · dsimp only
    split
    · have sent := ledgerOf_sendPending { app with sendPendingNow := false } takes
      generalize kClientSendPending { app with sendPendingNow := false } takes = result at sent
      obtain ⟨tried, went⟩ := result
      have after : Balanced (ledgerOf tried) := by
        rw [sent]
        exact balanced
      dsimp only
      split
      · exact after
      · exact transportClose_balanced after reported
    · exact balanced
  · exact balanced

/-- The requests that waited too long leave, each counted once. -/
theorem pollSweep_balanced {app : App} (balanced : Balanced (ledgerOf app))
    (kept : Kept app .sweep) : Balanced (ledgerOf (pollSweep app)) := by
  unfold pollSweep
  split
  · let late := app.pending.filter (expired app.nowUs)
    let stays := app.pending.filter fun pending => !expired app.nowUs pending
    have gone : ((late.map fun pending => (pending.ticket, Outcome.timedOut)).countP
        fun departure => counted departure.2) = late.length := by
      rw [List.countP_eq_length.mpr]
      · simp
      · intro departure member
        obtain ⟨pending, -, rfl⟩ := List.mem_map.mp member
        rfl
    have split : (ledgerOf app).pending.Perm
        ((late.map fun pending => (pending.ticket, Outcome.timedOut)).map Prod.fst ++
          stays.map Pending.ticket) := by
      have parts := (List.filter_append_perm (expired app.nowUs) app.pending).symm
      have tickets := parts.map Pending.ticket
      rw [List.map_append] at tickets
      rw [List.map_map]
      exact tickets
    have inOrder : List.Sublist (stays.map Pending.ticket) (ledgerOf app).pending :=
      (List.filter_sublist.map _ : List.Sublist (stays.map Pending.ticket) (app.pending.map _))
    have flag : (if late.any (fun pending => pending.type = .members) then false
        else app.discovering) = true ↔
          ∃ ticket ∈ stays.map Pending.ticket, ticket.discovery = true := by
      split
      · rename_i some
        obtain ⟨first, member, type⟩ := List.any_eq_true.mp some
        obtain ⟨inside, passed⟩ := List.mem_filter.mp member
        have takenToo := kept first inside passed (by simpa using type)
        apply iff_of_false (by decide)
        rintro ⟨ticket, waiting, own⟩
        obtain ⟨pending, still, rfl⟩ := List.mem_map.mp waiting
        obtain ⟨listed, onTime⟩ := List.mem_filter.mp still
        have passed := takenToo pending listed own
        simp [passed] at onTime
      · rename_i none
        rw [show app.discovering = (ledgerOf app).discovering from rfl, balanced.flag]
        constructor
        · rintro ⟨ticket, waiting, own⟩
          obtain ⟨pending, listed, rfl⟩ := List.mem_map.mp waiting
          refine ⟨pending.ticket, List.mem_map.mpr ⟨pending, ?_, rfl⟩, own⟩
          apply List.mem_filter.mpr
          refine ⟨listed, ?_⟩
          cases passed : expired app.nowUs pending with
          | false => rfl
          | true =>
            have type : pending.type = .members := balanced.typed pending.ticket waiting own
            apply absurd _ none
            apply List.any_eq_true.mpr
            exact ⟨pending, List.mem_filter.mpr ⟨listed, passed⟩, by simpa using type⟩
        · rintro ⟨ticket, waiting, own⟩
          exact ⟨ticket, inOrder.subset waiting, own⟩
    have left := balanced.leave split inOrder flag
    rw [gone] at left
    have freed : (app.freed ++ late.map fun pending => (pending, Outcome.timedOut)).map
        (fun departure => (departure.1.ticket, departure.2)) =
          (ledgerOf app).freed ++ late.map fun pending => (pending.ticket, Outcome.timedOut) := by
      rw [List.map_append, List.map_map]
      rfl
    rw [← freed] at left
    exact left
  · exact balanced

theorem step_balanced {app : App} {event : Event} (balanced : Balanced (ledgerOf app))
    (kept : Kept app event) : Balanced (ledgerOf (step app event)) := by
  cases event with
  | frame type payload =>
    rw [step]
    by_cases answered : ∃ pending response, Answers app type payload pending response
    · obtain ⟨pending, response, answers⟩ := answered
      rw [frame_answers answers]
      exact settle_balanced balanced answers kept
    · rw [frame_ignored fun pending response answers => answered ⟨pending, response, answers⟩]
      exact balanced
  | queue type build =>
    rw [step]
    rcases kClientQueue_ledger app type false build with ⟨same, -⟩ | ⟨id, added, -⟩
    · rw [same]
      exact balanced
    · rw [added]
      exact balanced.accept rfl
  | connect opens =>
    rw [step, ledgerOf_connect]
    exact balanced
  | connected build =>
    rw [step, kClientOnConnected]
    apply discover_balanced
    have unsent := ledgerOf_markAllUnsent { app with connected := true }
    rw [← show ledgerOf { app with connected := true } = ledgerOf app from rfl, ← unsent] at balanced
    exact balanced
  | close reported => exact transportClose_balanced balanced reported
  | closed => exact onClosed_balanced balanced
  | reconnect opens reported => exact pollReconnect_balanced balanced kept
  | sweep => exact pollSweep_balanced balanced kept
  | retry opens reported takes => exact pollRetry_balanced balanced kept
  | flush reported takes => exact pollFlush_balanced balanced reported takes
  | tick nowUs => exact balanced
  | configure inflightLimit requestTimeoutMs => exact balanced
  | stop => exact balanced

/-- After the sweep of a poll nothing waits past its deadline. -/
theorem pollSweep_prompt (app : App) {pending : Pending}
    (waiting : pending ∈ (pollSweep app).pending) : expired app.nowUs pending = false := by
  unfold pollSweep at waiting
  split at waiting
  · obtain ⟨-, onTime⟩ := List.mem_filter.mp waiting
    simpa using onTime
  · rename_i none
    rw [not_not.mp none] at waiting
    cases waiting

/-- A client at its start, whatever its seeds. -/
def Fresh (app : App) : Prop := ∃ seeds, app = start seeds

/-- In every run whose events lose no request uncounted: each accepted request is in flight or
has left once, none outstays its deadline at a sweep, every failure raised the count once, and
the flag is up exactly while a discovery is in flight. -/
theorem outcomes_accounted (app : App) (reached : Reaches Fresh step Kept app) :
    (app.accepted.map Pending.ticket).Perm
        (app.freed.map (fun departure => departure.1.ticket) ++ app.pending.map Pending.ticket) ∧
      (∀ pending ∈ (pollSweep app).pending, expired app.nowUs pending = false) ∧
      app.errorCount = UInt32.ofNat (app.freed.countP fun departure => counted departure.2) ∧
      (app.discovering = true ↔ ∃ pending ∈ app.pending, pending.discovery = true) := by
  have balanced : Balanced (ledgerOf app) := by
    apply reached.invariant
    · rintro first ⟨seeds, rfl⟩
      exact start_balanced seeds
    · intro first event before kept
      exact step_balanced before kept
  have once := balanced.once
  have counts := balanced.counts
  have flag := balanced.flag
  simp only [ledgerOf, List.map_map, List.countP_map] at once counts
  refine ⟨once, fun pending => pollSweep_prompt app, counts, ?_⟩
  rw [show app.discovering = (ledgerOf app).discovering from rfl, flag]
  simp [ledgerOf, Pending.ticket]

def answer (requestId status : Nat) : Event :=
  .frame responseType (responseBytes ⟨requestId, status, 0, [], 0, []⟩)

/-- The discovery is answered, a request fails, a second gets no answer in time, a third is lost
with its connection, and the next connection begins with a discovery. -/
def servedRun : List Event :=
  [.connect true, .connected .built, .flush false fun _ => true, answer 1 statusOk,
    .queue .get .built, .flush false fun _ => true, answer 2 statusError,
    .queue .set .built, .flush false fun _ => true, .tick 6000000, .sweep,
    .queue .get .built, .flush false fun _ => true, .closed, .reconnect true false, .connected .built]

theorem served_accounted :
    ∃ app, app.freed.map (fun departure => (departure.1.id, departure.2)) =
        [(1, .answered statusOk), (2, .answered statusError), (3, .timedOut), (4, .closed)] ∧
      app.pending.map Pending.id = [5] ∧ app.errorCount = 3 ∧
      (app.accepted.map Pending.ticket).Perm
        (app.freed.map (fun departure => departure.1.ticket) ++ app.pending.map Pending.ticket) ∧
      (∀ pending ∈ (pollSweep app).pending, expired app.nowUs pending = false) ∧
      app.errorCount = UInt32.ofNat (app.freed.countP fun departure => counted departure.2) ∧
      (app.discovering = true ↔ ∃ pending ∈ app.pending, pending.discovery = true) := by
  have begins : ∀ app, some (start []) = some app → Fresh app := by
    rintro app given
    exact ⟨[], (Option.some.inj given).symm⟩
  obtain ⟨app, reached, tested⟩ := Reaches.exists_of_through step Kept (some (start [])) begins
    (fun app => decide (app.freed.map (fun departure => (departure.1.id, departure.2)) =
        [(1, .answered statusOk), (2, .answered statusError), (3, .timedOut), (4, .closed)] ∧
      app.pending.map Pending.id = [5] ∧ app.errorCount = 3)) servedRun (by decide +kernel)
  obtain ⟨freed, waiting, errors⟩ := of_decide_eq_true tested
  exact ⟨app, freed, waiting, errors, outcomes_accounted app reached⟩

/-- A redirect of the first request that names no leader. -/
def leaderUnknown : Event :=
  .frame responseType (responseBytes ⟨1, statusRedirect, 0, [], 0, []⟩)

/-- The answers that use up the retries of a request, and one more. -/
def givenUpRun : List Event := .queue .get .built :: List.replicate 51 leaderUnknown

/-- The request is dropped with "leader unavailable", and nothing is counted. -/
theorem given_up_uncounted :
    Reaches Fresh step (fun _ _ => True) (givenUpRun.foldl step (start [])) ∧
      (givenUpRun.foldl step (start [])).pending = [] ∧
      (givenUpRun.foldl step (start [])).freed.map (fun departure => failed departure.2) = [true] ∧
      (givenUpRun.foldl step (start [])).errorCount = 0 := by
  have begun : Reaches Fresh step (fun _ _ => True) (start []) := .start ⟨[], rfl⟩
  exact ⟨begun.foldl givenUpRun, by decide +kernel, by decide +kernel, by decide +kernel⟩

end Kynovo.Client.Outcomes
