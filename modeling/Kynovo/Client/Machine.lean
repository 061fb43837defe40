import Kynovo.Client.Endpoints
import Kynovo.Proto.ClientCodec

/-! The client state machine: requests in flight, the answers that settle them, and the
reconnects and retries between them. The transport, the clock and the allocator answer
from outside; what the machine prints is left out. -/
namespace Kynovo.Client.Machine
open Kynovo.Server.Command (RequestType)
open Kynovo.Proto.ClientCodec
open Kynovo.Client.Endpoints

def clientRetryMs : UInt64 := 100
def clientRequestTimeoutMs : UInt32 := 5000
def clientRetryMax : Nat := 50

/-- `K_RESPONSE`. -/
def responseType : Nat := 100

def statusOk : Nat := 0
def statusNotFound : Nat := 1
def statusError : Nat := 2
def statusRedirect : Nat := 3
def statusConflict : Nat := 4

/-- `k_pending`, with one history mark: that `k_client_discover` queued the request. -/
structure Pending where
  id : UInt32
  type : RequestType
  sent : Bool
  sentUs : UInt64
  deadlineUs : UInt64
  discovery : Bool
deriving DecidableEq, Repr

/-- What tells a request from the others while its frame is sent and sent again. -/
structure Ticket where
  id : UInt32
  type : RequestType
  discovery : Bool
deriving DecidableEq, Repr

def Pending.ticket (pending : Pending) : Ticket := ⟨pending.id, pending.type, pending.discovery⟩

/-- Why a request left the pending list. -/
inductive Outcome where
  | answered (status : Nat)
  | timedOut
  | closed
  | reconnectFailed
  | leaderUnavailable
deriving DecidableEq, Repr

/-- `k_client_app`, with two history fields: the requests that were appended to the pending
list and those that were freed, in order. -/
structure App where
  endpoints : EndpointList
  sock : Bool
  connected : Bool
  discovering : Bool
  pending : List Pending
  nextId : UInt32
  reconnectPending : Bool
  preservePending : Bool
  retryPending : Bool
  sendPendingNow : Bool
  retryCount : Nat
  retryDeadlineUs : UInt64
  pendingDeadlineUs : UInt64
  requestTimeoutMs : UInt32
  lastDoneId : UInt32
  lastDoneStatus : Nat
  inflightLimit : Int
  doneCount : UInt32
  errorCount : UInt32
  nowUs : UInt64
  stopping : Bool
  accepted : List Pending
  freed : List (Pending × Outcome)

/-- A client that has parsed its seeds. -/
def start (seeds : List Endpoint) : App :=
  { endpoints := startEndpoints seeds
    sock := false, connected := false, discovering := false, pending := [], nextId := 0
    reconnectPending := false, preservePending := false, retryPending := false
    sendPendingNow := false, retryCount := 0, retryDeadlineUs := 0, pendingDeadlineUs := 0
    requestTimeoutMs := 0, lastDoneId := 0, lastDoneStatus := 0, inflightLimit := 0
    doneCount := 0, errorCount := 0, nowUs := 0, stopping := false
    accepted := [], freed := [] }

/-! ## The pending list -/

def kClientInflightCount (app : App) : Nat := app.pending.length

def kClientInflightLimit (app : App) : Int := if app.inflightLimit > 1 then app.inflightLimit else 1

def kClientAppendPending (app : App) (pending : Pending) : App :=
  { app with
    pending := app.pending ++ [pending]
    retryCount := 0
    retryPending := false
    accepted := app.accepted ++ [pending] }

def kClientMarkAllUnsent (app : App) : App :=
  { app with pending := app.pending.map fun pending => { pending with sent := false } }

/-- `k_pending_free` on the whole list. -/
def freeAll (app : App) (outcome : Outcome) : App :=
  { app with
    pending := []
    freed := app.freed ++ app.pending.map fun pending => (pending, outcome) }

/-- The first request with an id, and its removal and its turn to be sent again. -/
def findPending (app : App) (id : UInt32) : Option Pending :=
  app.pending.find? fun pending => pending.id = id

def kClientRemovePending (app : App) (pending : Pending) (outcome : Outcome) : App :=
  { app with
    pending := app.pending.eraseP fun other => other.id = pending.id
    freed := app.freed ++ [(pending, outcome)] }

def unsend (id : UInt32) : List Pending → List Pending
  | [] => []
  | pending :: rest =>
    if pending.id = id then { pending with sent := false } :: rest else pending :: unsend id rest

/-- The loop of `k_client_send_pending`: the frames go out in order until one is refused. -/
def sendEach (takes : Pending → Bool) (nowUs : UInt64) : List Pending → List Pending × Bool
  | [] => ([], true)
  | pending :: rest =>
    if pending.sent then
      let (rest, went) := sendEach takes nowUs rest
      (pending :: rest, went)
    else if takes pending then
      let (rest, went) := sendEach takes nowUs rest
      ({ pending with sent := true, sentUs := nowUs } :: rest, went)
    else (pending :: rest, false)

def kClientSendPending (app : App) (takes : Pending → Bool) : App × Bool :=
  if !app.connected || !app.sock then (app, true)
  else
    let (pending, went) := sendEach takes app.nowUs app.pending
    ({ app with pending }, went)

/-- `none` when the retries are used up. -/
def kClientRetryArm (app : App) : Option App :=
  if app.retryCount ≥ clientRetryMax then none
  else some
    { app with
      retryCount := app.retryCount + 1
      retryDeadlineUs := app.nowUs + clientRetryMs * 1000
      retryPending := true }

/-! ## Queueing -/

/-- How the building of a request ends. -/
inductive Build where
  | noMemory
  | refused
  | built
deriving DecidableEq, Repr

/-- `k_client_queue`, `k_client_queue_rget` and `k_client_queue_member`, which differ in the
payload they build. The result is their return value. -/
def kClientQueue (app : App) (type : RequestType) (discovery : Bool) (build : Build) : App × Int :=
  if app.pending ≠ [] ∧ app.inflightLimit ≤ 1 then (app, 0)
  else if (kClientInflightCount app : Int) ≥ kClientInflightLimit app then (app, 0)
  else
    match build with
    | .noMemory => (app, -1)
    | .refused => ({ app with nextId := app.nextId + 1 }, -1)
    | .built =>
      let timeoutMs := if app.requestTimeoutMs ≠ 0 then app.requestTimeoutMs else clientRequestTimeoutMs
      let deadlineUs := app.nowUs + timeoutMs.toUInt64 * 1000
      let id := app.nextId + 1
      let app := kClientAppendPending { app with nextId := id }
        { id, type, sent := false, sentUs := 0, deadlineUs, discovery }
      ({ app with
        pendingDeadlineUs := deadlineUs
        sendPendingNow := if app.connected then true else app.sendPendingNow }, 0)

def kClientDiscover (app : App) (build : Build) : App :=
  if app.pending ≠ [] || app.discovering then app
  else
    let (app, rc) := kClientQueue { app with discovering := true } .members true build
    if rc ≠ 0 then { app with discovering := false } else app

/-! ## Inbound -/

/-- The end of `k_client_response_frame`: an answered request is released. -/
def release (app : App) (pending : Pending) (outcome : Outcome) : App :=
  let discovering := if pending.type = .members then false else app.discovering
  kClientRemovePending { app with discovering } pending outcome

/-- What is noted of every response for a pending request. -/
def noteAnswer (app : App) (pending : Pending) (status : Nat) : App :=
  { app with
    lastDoneId := pending.id
    lastDoneStatus := status
    doneCount := app.doneCount + 1
    errorCount :=
      if status ≠ statusOk ∧ status ≠ statusNotFound ∧ status ≠ statusRedirect then
        app.errorCount + 1
      else app.errorCount }

/-- A response for a pending request. -/
def settle (app : App) (pending : Pending) (response : Response) : App :=
  let app := noteAnswer app pending response.status
  if response.status = statusRedirect ∧ response.host ≠ [] ∧ response.port ≠ 0 then
    let app := { app with endpoints := redirectTo app.endpoints ⟨response.host, response.port⟩ }
    { kClientMarkAllUnsent app with preservePending := true, reconnectPending := true }
  else if response.status = statusRedirect then
    match kClientRetryArm app with
    | some app => { app with pending := unsend pending.id app.pending }
    | none => release app pending .leaderUnavailable
  else if response.status = statusOk ∧ pending.type = .members then
    let app := { app with endpoints := kClientApplyMembers app.endpoints response.body }
    release app pending (.answered response.status)
  else release app pending (.answered response.status)

/-- The new state, and whether the frame was taken. -/
def kClientResponseFrame (app : App) (type : Nat) (payload : List UInt8) : App × Bool :=
  if type ≠ responseType then (app, false)
  else
    match kResponseDecode payload with
    | none => (app, false)
    | some response =>
      match findPending app (UInt32.ofNat response.requestId) with
      | none => (app, true)
      | some pending => (settle app pending response, true)

def kClientOnConnected (app : App) (build : Build) : App :=
  let app := kClientMarkAllUnsent { app with connected := true }
  kClientDiscover { app with preservePending := false, sendPendingNow := true } build

/-- The requests that a close takes along. -/
def dropPending (app : App) : App :=
  let errorCount := app.errorCount + UInt32.ofNat app.pending.length
  -- only the first request is looked at
  let discovering :=
    if app.pending.head?.any (fun first => first.type = .members) then false else app.discovering
  { freeAll { app with errorCount, discovering } .closed with retryPending := false, retryCount := 0 }

def kClientOnClosed (app : App) : App :=
  let app := { app with sock := false, connected := false }
  let app := if !app.preservePending && app.pending ≠ [] then dropPending app else app
  let app := { app with preservePending := false }
  if !app.stopping && !app.reconnectPending then
    { app with endpoints := failOver app.endpoints, reconnectPending := true }
  else app

/-! ## The poll -/

/-- Whether the transport opens a connection is its own answer. -/
def kClientConnect (app : App) (opens : Bool) : App × Bool :=
  if app.sock then (app, false) else ({ app with sock := opens }, opens)

/-- The close of the production transport, which forgets the socket; it may be reported at
once. -/
def transportClose (app : App) (reported : Bool) : App :=
  if reported then kClientOnClosed { app with sock := false } else { app with sock := false }

/-- The reconnect at the head of `k_client_poll`. -/
def pollReconnect (app : App) (opens reported : Bool) : App :=
  if app.reconnectPending then
    if app.sock then transportClose app reported
    else
      let (app, opened) := kClientConnect { app with reconnectPending := false } opens
      if opened then app
      else
        match kClientRetryArm app with
        | some app => app
        | none => freeAll app .reconnectFailed
  else app

/-- A request has waited for its answer until its deadline. -/
def expired (nowUs : UInt64) (pending : Pending) : Bool :=
  pending.deadlineUs ≠ 0 ∧ nowUs ≥ pending.deadlineUs

/-- The sweep of `k_client_poll` over the requests that have waited too long. -/
def pollSweep (app : App) : App :=
  if app.pending ≠ [] then
    let late := app.pending.filter (expired app.nowUs)
    let kept := app.pending.filter fun pending => !expired app.nowUs pending
    { app with
      discovering := if late.any (fun pending => pending.type = .members) then false
        else app.discovering
      errorCount := app.errorCount + UInt32.ofNat late.length
      pending := kept
      pendingDeadlineUs := (kept.head?.map Pending.deadlineUs).getD 0
      freed := app.freed ++ late.map fun pending => (pending, .timedOut) }
  else app

/-- The retry of `k_client_poll`. -/
def pollRetry (app : App) (opens reported : Bool) (takes : Pending → Bool) : App :=
  if app.retryPending && app.nowUs ≥ app.retryDeadlineUs then
    let app := { app with retryPending := false }
    if app.sock then
      let (app, went) := kClientSendPending app takes
      if went then app else transportClose app reported
    else
      let (app, opened) := kClientConnect app opens
      if opened then app
      else
        match kClientRetryArm app with
        | some app => app
        | none => freeAll app .leaderUnavailable
  else app

/-- The flush at the end of `k_client_poll`. -/
def pollFlush (app : App) (reported : Bool) (takes : Pending → Bool) : App :=
  if app.sendPendingNow then
    let app := { app with sendPendingNow := false }
    if app.connected && app.sock then
      let (app, went) := kClientSendPending app takes
      if went then app else transportClose app reported
    else app
  else app

/-- What the transport answers during one poll. -/
structure PollAnswers where
  opensFirst : Bool
  reportedFirst : Bool
  opensRetry : Bool
  reportedRetry : Bool
  takesRetry : Pending → Bool
  reportedFlush : Bool
  takesFlush : Pending → Bool

def kClientPoll (app : App) (answers : PollAnswers) : App :=
  let app := pollReconnect app answers.opensFirst answers.reportedFirst
  let app := pollSweep app
  let app := pollRetry app answers.opensRetry answers.reportedRetry answers.takesRetry
  pollFlush app answers.reportedFlush answers.takesFlush

/-! ## Runs -/

/-- What happens to a client. A poll is its four stages in a row. -/
inductive Event where
  | tick (nowUs : UInt64)
  | configure (inflightLimit : Int) (requestTimeoutMs : UInt32)
  | queue (type : RequestType) (build : Build)
  | connect (opens : Bool)
  | connected (build : Build)
  | frame (type : Nat) (payload : List UInt8)
  | close (reported : Bool)
  | closed
  | reconnect (opens reported : Bool)
  | sweep
  | retry (opens reported : Bool) (takes : Pending → Bool)
  | flush (reported : Bool) (takes : Pending → Bool)
  | stop

def step (app : App) : Event → App
  | .tick nowUs => { app with nowUs }
  | .configure inflightLimit requestTimeoutMs => { app with inflightLimit, requestTimeoutMs }
  | .queue type build => (kClientQueue app type false build).1
  | .connect opens => (kClientConnect app opens).1
  | .connected build => kClientOnConnected app build
  | .frame type payload => (kClientResponseFrame app type payload).1
  | .close reported => transportClose app reported
  | .closed => kClientOnClosed app
  | .reconnect opens reported => pollReconnect app opens reported
  | .sweep => pollSweep app
  | .retry opens reported takes => pollRetry app opens reported takes
  | .flush reported takes => pollFlush app reported takes
  | .stop => { app with stopping := true }

/-- The events of one poll. -/
def pollEvents (answers : PollAnswers) : List Event :=
  [.reconnect answers.opensFirst answers.reportedFirst, .sweep,
    .retry answers.opensRetry answers.reportedRetry answers.takesRetry,
    .flush answers.reportedFlush answers.takesFlush]

theorem kClientPoll_eq (app : App) (answers : PollAnswers) :
    kClientPoll app answers = (pollEvents answers).foldl step app := rfl

/-! ## What the handlers leave alone -/

theorem kClientQueue_endpoints (app : App) (type : RequestType) (discovery : Bool) (build : Build) :
    (kClientQueue app type discovery build).1.endpoints = app.endpoints := by
  unfold kClientQueue
  split
  · rfl
  · split
    · rfl
    · cases build with
      | noMemory => rfl
      | refused => rfl
      | built =>
        rfl

theorem kClientDiscover_endpoints (app : App) (build : Build) :
    (kClientDiscover app build).endpoints = app.endpoints := by
  unfold kClientDiscover
  split
  · rfl
  · have kept := kClientQueue_endpoints { app with discovering := true } .members true build
    dsimp only
    split
    · exact kept
    · exact kept

theorem kClientRetryArm_endpoints {app armed : App} (arms : kClientRetryArm app = some armed) :
    armed.endpoints = app.endpoints := by
  unfold kClientRetryArm at arms
  split at arms
  · cases arms
  · cases arms
    rfl

theorem kClientSendPending_endpoints (app : App) (takes : Pending → Bool) :
    (kClientSendPending app takes).1.endpoints = app.endpoints := by
  unfold kClientSendPending
  split
  · rfl
  · rfl

theorem kClientConnect_endpoints (app : App) (opens : Bool) :
    (kClientConnect app opens).1.endpoints = app.endpoints := by
  unfold kClientConnect
  split
  · rfl
  · rfl

/-- A close either leaves the endpoints alone or fails over. -/
theorem kClientOnClosed_endpoints (app : App) :
    (kClientOnClosed app).endpoints = app.endpoints ∨
      (kClientOnClosed app).endpoints = failOver app.endpoints := by
  unfold kClientOnClosed
  dsimp only
  by_cases dropped : (!app.preservePending && app.pending ≠ []) = true
  · rw [if_pos dropped]
    split
    · exact Or.inr rfl
    · exact Or.inl rfl
  · rw [if_neg dropped]
    split
    · exact Or.inr rfl
    · exact Or.inl rfl

theorem transportClose_endpoints (app : App) (reported : Bool) :
    (transportClose app reported).endpoints = app.endpoints ∨
      (transportClose app reported).endpoints = failOver app.endpoints := by
  unfold transportClose
  cases reported with
  | true => exact kClientOnClosed_endpoints { app with sock := false }
  | false => exact Or.inl rfl

/-- What an answer to a pending request does to the endpoints. -/
theorem settle_endpoints (app : App) (pending : Pending) (response : Response) :
    (settle app pending response).endpoints =
      if response.status = statusRedirect ∧ response.host ≠ [] ∧ response.port ≠ 0 then
        redirectTo app.endpoints ⟨response.host, response.port⟩
      else if response.status = statusOk ∧ pending.type = .members then
        kClientApplyMembers app.endpoints response.body
      else app.endpoints := by
  have noted : (noteAnswer app pending response.status).endpoints = app.endpoints := rfl
  unfold settle
  rw [← noted]
  generalize noteAnswer app pending response.status = app
  by_cases redirected : response.status = statusRedirect ∧ response.host ≠ [] ∧ response.port ≠ 0
  · rw [if_pos redirected, if_pos redirected]
    rfl
  · rw [if_neg redirected, if_neg redirected]
    by_cases unknown : response.status = statusRedirect
    · have other : ¬ (response.status = statusOk ∧ pending.type = .members) := by
        rintro ⟨ok, -⟩
        rw [ok] at unknown
        cases unknown
      rw [if_pos unknown, if_neg other]
      cases arms : kClientRetryArm app with
      | some armed =>
        have kept := kClientRetryArm_endpoints arms
        exact kept
      | none => rfl
    · rw [if_neg unknown]
      split
      · rfl
      · rfl

/-! ## Answers -/

/-- An answer that a client takes for one of its requests. -/
def Answers (app : App) (type : Nat) (payload : List UInt8) (pending : Pending)
    (response : Response) : Prop :=
  type = responseType ∧ kResponseDecode payload = some response ∧
    findPending app (UInt32.ofNat response.requestId) = some pending

/-- The request that a frame answers, and the answer. -/
def answerOf (app : App) (type : Nat) (payload : List UInt8) : Option (Pending × Response) :=
  if type = responseType then
    (kResponseDecode payload).bind fun response =>
      (findPending app (UInt32.ofNat response.requestId)).map fun pending => (pending, response)
  else none

theorem answers_iff {app : App} {type : Nat} {payload : List UInt8} {pending : Pending}
    {response : Response} : Answers app type payload pending response ↔
      (pending, response) ∈ answerOf app type payload := by
  unfold Answers answerOf
  by_cases own : type = responseType
  · rw [if_pos own, Option.mem_def, Option.bind_eq_some_iff]
    constructor
    · rintro ⟨-, decoded, found⟩
      exact ⟨response, decoded, by rw [found]; rfl⟩
    · rintro ⟨other, decoded, found⟩
      obtain ⟨waiting, listed, same⟩ := Option.map_eq_some_iff.mp found
      cases same
      exact ⟨own, decoded, listed⟩
  · rw [if_neg own]
    constructor
    · exact fun answers => absurd answers.1 own
    · exact fun none => by cases none

/-- A frame has at most one answer in it, so a condition on its answers can be computed. -/
def decidableAnswers (app : App) (type : Nat) (payload : List UInt8)
    {meets : Pending → Response → Prop}
    (decides : ∀ pending response, Decidable (meets pending response)) :
    Decidable (∀ pending response, Answers app type payload pending response →
      meets pending response) :=
  have (answer : Pending × Response) : Decidable (meets answer.1 answer.2) :=
    decides answer.1 answer.2
  decidable_of_iff (∀ answer ∈ answerOf app type payload, meets answer.1 answer.2)
    ⟨fun all pending response answers => all (pending, response) (answers_iff.mp answers),
      fun all answer listed => all answer.1 answer.2 (answers_iff.mpr listed)⟩

/-- A frame that answers no pending request changes nothing. -/
theorem frame_ignored {app : App} {type : Nat} {payload : List UInt8}
    (ignored : ∀ pending response, ¬ Answers app type payload pending response) :
    (kClientResponseFrame app type payload).1 = app := by
  unfold kClientResponseFrame
  by_cases other : type ≠ responseType
  · rw [if_pos other]
  · rw [if_neg other]
    cases decoded : kResponseDecode payload with
    | none => rfl
    | some response =>
      dsimp only
      cases found : findPending app (UInt32.ofNat response.requestId) with
      | none => rfl
      | some pending =>
        exact absurd ⟨not_not.mp other, decoded, found⟩ (ignored pending response)

theorem frame_answers {app : App} {type : Nat} {payload : List UInt8} {pending : Pending}
    {response : Response} (answers : Answers app type payload pending response) :
    (kClientResponseFrame app type payload).1 = settle app pending response := by
  obtain ⟨rfl, decoded, found⟩ := answers
  unfold kClientResponseFrame
  rw [if_neg (by simp), decoded]
  dsimp only
  rw [found]

end Kynovo.Client.Machine
