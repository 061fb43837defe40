import Kynovo.Client.Machine
import Kynovo.Lib.Runs

/-! The endpoints of a client through a whole run: which answers keep the list sound. -/
namespace Kynovo.Client.Topology
open Kynovo.Lib.Runs
open Kynovo.Proto.ClientCodec
open Kynovo.Client.Endpoints
open Kynovo.Client.Machine

/-- An event that leaves the list of endpoints sound: a redirect does not put an unknown
endpoint over a seed of a full list, and a MEMBERS answer leaves a list that reaches past the
endpoint the client is on. -/
def Harmless (seeds : List Endpoint) (app : App) : Event → Prop
  | .frame type payload => ∀ pending response, Answers app type payload pending response →
      (response.status = statusRedirect → response.host ≠ [] → response.port ≠ 0 →
        (⟨response.host, response.port⟩ : Endpoint) ∉ app.endpoints.known →
        app.endpoints.hostCount = maxEndpoints → seeds.length ≤ app.endpoints.hostIndex) ∧
      (response.status = statusOk → pending.type = .members →
        ∀ nodes, membersOf response.body = some nodes →
          app.endpoints.hostIndex <
            min maxEndpoints (seeds.length + (freshMembers seeds nodes).length))
  | _ => True

instance (seeds : List Endpoint) (app : App) (body : List UInt8) :
    Decidable (∀ nodes, membersOf body = some nodes → app.endpoints.hostIndex <
      min maxEndpoints (seeds.length + (freshMembers seeds nodes).length)) :=
  inferInstanceAs (Decidable (∀ nodes ∈ membersOf body, app.endpoints.hostIndex <
    min maxEndpoints (seeds.length + (freshMembers seeds nodes).length)))

instance (seeds : List Endpoint) (app : App) : (event : Event) → Decidable (Harmless seeds app event)
  | .frame type payload =>
    decidableAnswers app type payload fun _ _ => inferInstanceAs (Decidable (_ ∧ _))
  | .tick _ | .configure _ _ | .queue _ _ | .connect _ | .connected _ | .close _ | .closed
  | .reconnect _ _ | .sweep | .retry _ _ _ | .flush _ _ | .stop => .isTrue trivial

/-- What the answer to a pending request does to a sound list. -/
theorem settle_sound_iff {seeds : List Endpoint} {app : App} (sound : Sound seeds app.endpoints)
    (pending : Pending) (response : Response) :
    Sound seeds (settle app pending response).endpoints ↔
      (response.status = statusRedirect → response.host ≠ [] → response.port ≠ 0 →
        (⟨response.host, response.port⟩ : Endpoint) ∉ app.endpoints.known →
        app.endpoints.hostCount = maxEndpoints → seeds.length ≤ app.endpoints.hostIndex) ∧
      (response.status = statusOk → pending.type = .members →
        ∀ nodes, membersOf response.body = some nodes →
          app.endpoints.hostIndex <
            min maxEndpoints (seeds.length + (freshMembers seeds nodes).length)) := by
  rw [settle_endpoints]
  by_cases redirected : response.status = statusRedirect ∧ response.host ≠ [] ∧ response.port ≠ 0
  · rw [if_pos redirected, sound.redirectTo_iff]
    obtain ⟨status, host, port⟩ := redirected
    have notOk : response.status ≠ statusOk := by
      rw [status]
      decide
    constructor
    · intro kept
      exact ⟨fun _ _ _ => kept, fun ok => absurd ok notOk⟩
    · intro both
      exact both.1 status host port
  · rw [if_neg redirected]
    have first : response.status = statusRedirect → response.host ≠ [] → response.port ≠ 0 →
        (⟨response.host, response.port⟩ : Endpoint) ∉ app.endpoints.known →
        app.endpoints.hostCount = maxEndpoints → seeds.length ≤ app.endpoints.hostIndex := by
      intro status host port
      exact absurd ⟨status, host, port⟩ redirected
    by_cases discovered : response.status = statusOk ∧ pending.type = .members
    · rw [if_pos discovered, sound.applyMembers_iff]
      constructor
      · intro reaches
        exact ⟨first, fun _ _ => reaches⟩
      · intro both
        exact both.2 discovered.1 discovered.2
    · rw [if_neg discovered]
      apply iff_of_true sound
      exact ⟨first, fun ok members => absurd ⟨ok, members⟩ discovered⟩

theorem sound_of_either {seeds : List Endpoint} {before after : EndpointList}
    (sound : Sound seeds before) (either : after = before ∨ after = failOver before) :
    Sound seeds after := by
  rcases either with same | moved
  · rw [same]
    exact sound
  · rw [moved]
    exact sound.failOver

theorem pollReconnect_endpoints (app : App) (opens reported : Bool) :
    (pollReconnect app opens reported).endpoints = app.endpoints ∨
      (pollReconnect app opens reported).endpoints = failOver app.endpoints := by
  unfold pollReconnect
  split
  · split
    · exact transportClose_endpoints app reported
    · left
      have connected := kClientConnect_endpoints { app with reconnectPending := false } opens
      generalize kClientConnect { app with reconnectPending := false } opens = result at connected
      obtain ⟨tried, opened⟩ := result
      dsimp only at connected ⊢
      split
      · exact connected
      · cases arms : kClientRetryArm tried with
        | some armed =>
          have kept := kClientRetryArm_endpoints arms
          exact kept.trans connected
        | none => exact connected
  · exact Or.inl rfl

theorem pollRetry_endpoints (app : App) (opens reported : Bool) (takes : Pending → Bool) :
    (pollRetry app opens reported takes).endpoints = app.endpoints ∨
      (pollRetry app opens reported takes).endpoints = failOver app.endpoints := by
  unfold pollRetry
  split
  · dsimp only
    split
    · have sent := kClientSendPending_endpoints { app with retryPending := false } takes
      generalize kClientSendPending { app with retryPending := false } takes = result at sent
      obtain ⟨tried, went⟩ := result
      dsimp only at sent ⊢
      rw [← sent]
      split
      · exact Or.inl rfl
      · exact transportClose_endpoints tried reported
    · left
      have connected := kClientConnect_endpoints { app with retryPending := false } opens
      generalize kClientConnect { app with retryPending := false } opens = result at connected
      obtain ⟨tried, opened⟩ := result
      dsimp only at connected ⊢
      split
      · exact connected
      · cases arms : kClientRetryArm tried with
        | some armed =>
          have kept := kClientRetryArm_endpoints arms
          exact kept.trans connected
        | none => exact connected
  · exact Or.inl rfl

theorem pollFlush_endpoints (app : App) (reported : Bool) (takes : Pending → Bool) :
    (pollFlush app reported takes).endpoints = app.endpoints ∨
      (pollFlush app reported takes).endpoints = failOver app.endpoints := by
  unfold pollFlush
  split
  · dsimp only
    split
    · have sent := kClientSendPending_endpoints { app with sendPendingNow := false } takes
      generalize kClientSendPending { app with sendPendingNow := false } takes = result at sent
      obtain ⟨tried, went⟩ := result
      dsimp only at sent ⊢
      rw [← sent]
      split
      · exact Or.inl rfl
      · exact transportClose_endpoints tried reported
    · exact Or.inl rfl
  · exact Or.inl rfl

theorem pollSweep_endpoints (app : App) : (pollSweep app).endpoints = app.endpoints := by
  unfold pollSweep
  split
  · rfl
  · rfl

/-- From a sound list the harmless events are exactly those that keep it sound. -/
theorem step_sound_iff {seeds : List Endpoint} {app : App} (sound : Sound seeds app.endpoints)
    (event : Event) : Sound seeds (step app event).endpoints ↔ Harmless seeds app event := by
  cases event with
  | frame type payload =>
    by_cases answered : ∃ pending response, Answers app type payload pending response
    · obtain ⟨pending, response, answers⟩ := answered
      have settled := settle_sound_iff sound pending response
      rw [step, frame_answers answers, settled]
      constructor
      · intro kept otherPending otherResponse other
        obtain ⟨-, decoded, found⟩ := answers
        obtain ⟨-, decodedOther, foundOther⟩ := other
        cases decoded.symm.trans decodedOther
        cases found.symm.trans foundOther
        exact kept
      · intro harmless
        exact harmless pending response answers
    · have ignored : ∀ pending response, ¬ Answers app type payload pending response := by
        intro pending response answers
        exact answered ⟨pending, response, answers⟩
      rw [step, frame_ignored ignored]
      apply iff_of_true sound
      intro pending response answers
      exact absurd answers (ignored pending response)
  | queue type build =>
    apply iff_of_true _ trivial
    rw [step, kClientQueue_endpoints]
    exact sound
  | connect opens =>
    apply iff_of_true _ trivial
    rw [step, kClientConnect_endpoints]
    exact sound
  | connected build =>
    apply iff_of_true _ trivial
    rw [step, kClientOnConnected, kClientDiscover_endpoints]
    exact sound
  | close reported => exact iff_of_true (sound_of_either sound (transportClose_endpoints _ _)) trivial
  | closed => exact iff_of_true (sound_of_either sound (kClientOnClosed_endpoints _)) trivial
  | reconnect opens reported =>
    exact iff_of_true (sound_of_either sound (pollReconnect_endpoints _ _ _)) trivial
  | sweep =>
    apply iff_of_true _ trivial
    rw [step, pollSweep_endpoints]
    exact sound
  | retry opens reported takes =>
    exact iff_of_true (sound_of_either sound (pollRetry_endpoints _ _ _ _)) trivial
  | flush reported takes =>
    exact iff_of_true (sound_of_either sound (pollFlush_endpoints _ _ _)) trivial
  | tick nowUs => exact iff_of_true sound trivial
  | configure inflightLimit requestTimeoutMs => exact iff_of_true sound trivial
  | stop => exact iff_of_true sound trivial

/-- A client that has parsed a seed list. -/
def Started (seeds : List Endpoint) (app : App) : Prop :=
  ∃ seedList, kClientSeedParse seedList = some seeds ∧ app = start seeds

theorem Started.sound {seeds : List Endpoint} {app : App} (started : Started seeds app) :
    Sound seeds app.endpoints := by
  obtain ⟨seedList, parsed, rfl⟩ := started
  obtain ⟨nonempty, bounded⟩ := kClientSeedParse_some parsed
  exact startEndpoints_sound nonempty bounded

/-- Through every run of harmless events the list stays sound, and the next event keeps it so
exactly if it is harmless too. -/
theorem endpoints_sound_iff_harmless (seeds : List Endpoint) (app : App)
    (reached : Reaches (Started seeds) step (Harmless seeds) app) :
    Sound seeds app.endpoints ∧
      ∀ event, Sound seeds (step app event).endpoints ↔ Harmless seeds app event := by
  have sound : Sound seeds app.endpoints := by
    apply reached.invariant (fun app => Started.sound)
    intro app event sound harmless
    exact (step_sound_iff sound event).mpr harmless
  exact ⟨sound, step_sound_iff sound⟩

/-! A client of the seed `h:1` is redirected to `l:2`, and there learns that `h` is the only
member. -/

def seedText : List UInt8 := [104, 58, 49]

def redirectFrame (requestId : Nat) (host : List UInt8) (port : Nat) : Event :=
  .frame responseType (responseBytes ⟨requestId, statusRedirect, 0, host, port, []⟩)

def okFrame (requestId : Nat) (body : List UInt8) : Event :=
  .frame responseType (responseBytes ⟨requestId, statusOk, 0, [], 0, body⟩)

def strandedRun : List Event :=
  [.connect true, .connected .noMemory, .queue .get .built, redirectFrame 1 [108] 2,
    okFrame 1 [], .connected .built, okFrame 2 [49, 64, 104, 58, 49, 58, 50]]

theorem stranded_client :
    kClientSeedParse seedText = some [⟨[104], 1⟩] ∧
      Reaches (Started [⟨[104], 1⟩]) step (fun _ _ => True)
        (strandedRun.foldl step (start [⟨[104], 1⟩])) ∧
      ¬ (strandedRun.foldl step (start [⟨[104], 1⟩])).endpoints.hostIndex <
        (strandedRun.foldl step (start [⟨[104], 1⟩])).endpoints.hostCount := by
  have parsed : kClientSeedParse seedText = some [⟨[104], 1⟩] := by decide +kernel
  refine ⟨parsed, ?_, by decide +kernel⟩
  have begun : Reaches (Started [⟨[104], 1⟩]) step (fun _ _ => True) (start [⟨[104], 1⟩]) :=
    .start ⟨seedText, parsed, rfl⟩
  exact begun.foldl strandedRun

/-! A client of the seeds `h:1` and `g:2` learns of the member `l:2`, is redirected to it, then
to `m:3`, and loses that connection. -/

def surveySeeds : List Endpoint := [⟨[104], 1⟩, ⟨[103], 2⟩]

def surveyText : List UInt8 := [104, 58, 49, 44, 103, 58, 50]

def surveyRun : List Event :=
  [.connect true, .connected .built,
    okFrame 1 [49, 64, 104, 58, 49, 58, 50, 44, 50, 64, 108, 58, 50, 58, 51],
    .queue .get .built, redirectFrame 2 [108] 2, .reconnect true true, .reconnect true false,
    .connected .built, redirectFrame 2 [109] 3, .reconnect true true, .reconnect true false,
    .connected .built, okFrame 2 [], .closed]

theorem survey_client_sound :
    ∃ app, app.endpoints.known = [⟨[104], 1⟩, ⟨[103], 2⟩, ⟨[108], 2⟩, ⟨[109], 3⟩] ∧
      app.endpoints.hostIndex = 0 ∧ app.freed.length = 2 ∧ Sound surveySeeds app.endpoints ∧
        ∀ event, Sound surveySeeds (step app event).endpoints ↔ Harmless surveySeeds app event := by
  have begins : ∀ app, some (start surveySeeds) = some app → Started surveySeeds app := by
    rintro app given
    cases given
    exact ⟨surveyText, by decide +kernel, rfl⟩
  obtain ⟨app, reached, tested⟩ := Reaches.exists_of_through step (Harmless surveySeeds)
    (some (start surveySeeds)) begins
    (fun app => decide (app.endpoints.known = [⟨[104], 1⟩, ⟨[103], 2⟩, ⟨[108], 2⟩, ⟨[109], 3⟩] ∧
      app.endpoints.hostIndex = 0 ∧ app.freed.length = 2)) surveyRun (by decide +kernel)
  obtain ⟨known, index, freed⟩ := of_decide_eq_true tested
  exact ⟨app, known, index, freed, endpoints_sound_iff_harmless surveySeeds app reached⟩

end Kynovo.Client.Topology
