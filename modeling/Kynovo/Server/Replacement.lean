import Kynovo.Raft.OutputFrame
import Kynovo.Server.Drive

/-! The automatic replacement of a voter. A leader that a voter has not answered for long
enough asks its own node to change the voters. It does so in the middle of a round, when
the bundle is assembled and not yet taken, and it decides with the voters of the last
configuration it applied, which may be older than the one its node has in force. -/
namespace Kynovo.Server.Replacement
open Kynovo.Raft
open Kynovo.Server.Drive

def kMaxNodes : Nat := 16

def kAutoReplaceRetryMs : Nat := 30000

/-- The replacement that is configured: the node that takes over, and after how many missed
rounds of a voter. -/
structure AutoReplace where
  enabled : Bool
  newId : Int
  threshold : Nat

inductive Phase where
  | idle
  | adding
  | removing
deriving DecidableEq

/-- What the server knows of the cluster, and how far a replacement is. `internal` are the
cookies of the changes it asked for itself. -/
structure Watch where
  isLeader : Bool
  voters : List Int
  phase : Phase
  failedId : Int
  lastAttemptMs : Nat
  failStreak : Nat
  internal : List Nat

/-- What a round meets: whether the bundle reports a change of leadership, the clock of the
server, and for a request to change members the address map, whether the node to change is
in the address book, and its cookie. `removal` is the cookie of the change that follows a
committed addition, if the node takes it. -/
structure Round where
  elapsedMs : Nat
  walInflightMax : Nat
  leaderChange : Bool
  nowMs : Nat
  addr : List UInt8
  known : Bool
  cookie : Nat
  live : LiveInput
  removal : Option Nat

/-! ## Requests -/

/-- The requests that reach the node: the address map, and the new voters. -/
structure Asks where
  addr : Option (List UInt8)
  change : Option (List Int)

/-- The address map is sent under a cookie that no client has. -/
def addrCookieStub : Nat := 1

def Asks.published (asks : Asks) : List ClientMessage :=
  asks.addr.toList.map (fun map => .submit [⟨addrCookieStub, map⟩])

def Asks.messages (asks : Asks) (cookie : Nat) : List ClientMessage :=
  asks.published ++ asks.change.toList.map (.reconfig cookie)

/-- The node after requests. -/
def asked (r : Node) (messages : List ClientMessage) : Node :=
  messages.foldl (fun r msg => (raftRecvfromClient r msg).1) r

inductive Subcmd where
  | add
  | remove

/-- The voters after the change, if the table holds them. -/
def finalIds (voters : List Int) (subcmd : Subcmd) (id : Int) : Option (List Int) :=
  match subcmd with
  | .add =>
    if voters.contains id then some voters
    else if kMaxNodes ≤ voters.length then none
    else some (voters ++ [id])
  | .remove => some (voters.filter (fun voter => voter != id))

/-- A change of one member that the server asks for itself; `true` when the node took it.
An addition publishes the addresses first. -/
def kServerSubmitMember (watch : Watch) (round : Round) (r : Node) (subcmd : Subcmd) (id : Int) :
    Asks × Bool :=
  if !watch.isLeader || !round.known then (⟨none, none⟩, false)
  else
    match finalIds watch.voters subcmd id with
    | none | some [] => (⟨none, none⟩, false)
    | some final =>
      let addr := match subcmd with
        | .add => some round.addr
        | .remove => none
      if (addr.all fun map => (raftSubmit r [⟨addrCookieStub, map⟩]).2 == 0) then
        (⟨addr, some final⟩,
          (raftReconfig (asked r (Asks.published ⟨addr, none⟩)) round.cookie final).2 == 0)
      else (⟨addr, none⟩, false)

/-- The first peer that missed too many rounds and is a voter; a leader reports its peers. -/
def failedVoter (replacement : AutoReplace) (watch : Watch) (r : Node) : Option Int :=
  if r.state = .leader then
    (r.peers.find? fun peer => decide (replacement.threshold ≤ peer.missedRounds) &&
      watch.voters.contains peer.id).map Peer.id
  else none

def Watch.ask (watch : Watch) (replacement : AutoReplace) (round : Round) (r : Node)
    (failed : Int) : Asks × Watch :=
  let adds := !watch.voters.contains replacement.newId
  let submitted :=
    if adds then kServerSubmitMember watch round r .add replacement.newId
    else kServerSubmitMember watch round r .remove failed
  (submitted.1,
    if submitted.2 then
      { watch with
        failedId := failed
        phase := if adds then .adding else .removing
        internal := round.cookie :: watch.internal }
    else
      { watch with
        failedId := failed
        failStreak := watch.failStreak + 1 })

def kServerAutoReplace (replacement : AutoReplace) (round : Round) (r : Node) (watch : Watch) :
    Asks × Watch :=
  if !watch.isLeader || !replacement.enabled || watch.phase ≠ .idle then (⟨none, none⟩, watch)
  else if watch.lastAttemptMs ≠ 0 && 2 ≤ watch.failStreak &&
      decide (round.nowMs - watch.lastAttemptMs < kAutoReplaceRetryMs) then (⟨none, none⟩, watch)
  else
    match failedVoter replacement watch r with
    | none => (⟨none, none⟩, { watch with lastAttemptMs := round.nowMs })
    | some failed =>
      Watch.ask { watch with lastAttemptMs := round.nowMs } replacement round r failed

/-! ## What the server learns -/

/-- The leadership that a bundle reports, when it reports a change. -/
def Watch.led (watch : Watch) (leaderChange : Bool) (r : Node) : Watch :=
  if leaderChange then { watch with isLeader := decide (r.state = .leader) } else watch

def addVoter (voters : List Int) (id : Int) : List Int :=
  if kMaxNodes ≤ voters.length || voters.contains id then voters else voters ++ [id]

/-- An applied configuration replaces the known voters, both of its sets counted. -/
def kMembershipUpdate (voters : List Int) (item : ApplyEntry) : List Int :=
  if item.kind = entryConfig then (item.cfgOld ++ item.cfgNew).foldl addVoter [] else voters

/-- The node took the new voter in, and the failed one is to go; or it has gone. -/
def kServerAutoReplaceCommitted (watch : Watch) (removal : Option Nat) : Watch :=
  let fresh := { watch with failStreak := 0 }
  match fresh.phase with
  | .adding =>
    match removal with
    | some cookie =>
      { fresh with
        phase := .removing
        internal := cookie :: fresh.internal }
    | none =>
      { fresh with
        phase := .idle
        failStreak := 1 }
  | .removing => { fresh with phase := .idle }
  | .idle => fresh

/-- The result of a change the server asked for itself. -/
def kServerHandleClientResult (removal : Option Nat) (watch : Watch) (result : ClientResult) :
    Watch :=
  if !watch.internal.contains result.cookie then watch
  else
    match result.status with
    | .committed => kServerAutoReplaceCommitted watch removal
    | .failed | .catchupFailed =>
      { watch with
        failStreak := watch.failStreak + 1
        phase := .idle }
    | .redirect =>
      { watch with
        lastAttemptMs := 0
        failStreak := 0
        phase := .idle }
    | .ready | .catchupReady => watch

/-- The live half of a bundle. -/
def Watch.live (watch : Watch) (enabled : Bool) (ready : Ready) (removal : Option Nat) : Watch :=
  let applied := { watch with voters := ready.applies.foldl kMembershipUpdate watch.voters }
  if enabled then ready.results.foldl (kServerHandleClientResult removal) applied else applied

/-! ## Requests that are answered at once -/

/-- A client waits for the catch-up of a learner. -/
def awaited (r : Node) (id : Int) : Bool :=
  id != r.cfg.id && (raftFindPeer r id).any (fun peer =>
    peer.isLearner && peer.catchupCookie != 0 && decide (0 ≤ peer.catchupRound))

/-- A change reaches its answer before it is appended: it asks for the configuration in
force, or it makes a voter of a learner that a client waits for. -/
def answersAtOnce (r : Node) (cookie : Nat) (ids : List Int) : Bool :=
  cookie != 0 && decide (r.phase = .running) && decide (r.state = .leader) &&
    !raftIdValid r.transfer.target && !r.config.joint && !r.catchup.active &&
    (raftMakeSortedIds ids).any (fun new => new == r.config.old ||
      (raftNewServersCaughtUp r r.config.old new (raftLogLastIndex r.log) && new.any (awaited r)))

/-- What the next bundle is assembled from. -/
def output (r : Node) : List ClientResult × List PeerMessage × List SnapshotReadReq :=
  (r.results, r.msgs, r.snapReads)

theorem raftSubmit_output (r : Node) (commands : List Command) :
    output (raftSubmit r commands).1 = output r := by
  unfold raftSubmit
  split
  · rfl
  · split
    · rfl
    · rfl

theorem raftLogCut_output (r : Node) (idx : Int) : output (raftLogCut r idx) = output r := by
  unfold raftLogCut
  split
  · rfl
  · rfl

theorem rebuildPeers_output (r : Node) : output (rebuildPeers r) = output r := by
  unfold rebuildPeers
  split
  · rfl
  · rfl

theorem raftApplyConfigMasks_output (r : Node) (old new learners : List Int) :
    output (raftApplyConfigMasks r old new learners).1 = output r := by
  unfold raftApplyConfigMasks
  split
  · rfl
  · split
    · rfl
    · exact rebuildPeers_output _

theorem raftApplyConfigFromLog_output (r : Node) :
    output (raftApplyConfigFromLog r).1 = output r := by
  unfold raftApplyConfigFromLog
  split
  · exact raftApplyConfigMasks_output ..
  · obtain ⟨old, new, learners⟩ := baseMasks r
    dsimp only
    split
    · rfl
    · exact raftApplyConfigMasks_output ..

/-- A change that is admitted leaves the peers and the output as they are. -/
theorem admitChange_same (r : Node) :
    output (admitChange r) = output r ∧ (admitChange r).peers = r.peers ∧
      (admitChange r).cfg = r.cfg := by
  have retired (r : Node) : output (raftConfigZombieClear r) = output r ∧
      (raftConfigZombieClear r).peers = r.peers ∧ (raftConfigZombieClear r).cfg = r.cfg := by
    unfold raftConfigZombieClear
    split
    · exact ⟨rfl, rfl, rfl⟩
    · exact ⟨rfl, rfl, rfl⟩
  unfold admitChange
  split
  · exact retired (raftConfigPendingClear r)
  · exact retired r

theorem finishPromoted_same {r : Node} {id : Int} (free : awaited r id = false) :
    finishPromoted r id = r := by
  unfold finishPromoted
  split
  · rfl
  · rename_i other
    split
    · rfl
    · rename_i peer found
      split
      · rename_i waits
        simp only [Bool.and_eq_true, decide_eq_true_eq] at waits
        simp [awaited, other, found, waits.1.1, waits.1.2, waits.2] at free
      · rfl

theorem promoted_same {r : Node} {ids : List Int} (free : ids.any (awaited r) = false) :
    ids.foldl finishPromoted r = r := by
  induction ids with
  | nil => rfl
  | cons id rest ih =>
    rw [List.any_cons, Bool.or_eq_false_iff] at free
    rw [List.foldl_cons, finishPromoted_same free.1]
    exact ih free.2

theorem raftCommitConfigEntry_output {r : Node} (cookie : Nat)
    (free : r.config.pendingNew.any (awaited r) = false) :
    output (raftCommitConfigEntry r cookie).1 = output r := by
  have promoted : r.config.pendingNew.foldl finishPromoted (addChange r) = addChange r :=
    promoted_same free
  have applied : output (raftApplyConfigFromLog (addChange r)).1 = output r :=
    raftApplyConfigFromLog_output _
  unfold raftCommitConfigEntry
  dsimp only
  rw [promoted]
  split
  · rename_i shape
    rw [shape] at applied
    exact applied
  · rename_i shape
    rw [shape] at applied
    exact (raftLogCut_output _ _).trans applied

/-- A change that is not answered at once adds nothing to the output. -/
theorem raftReconfig_output {r : Node} {cookie : Nat} {ids : List Int}
    (later : answersAtOnce r cookie ids = false) :
    output (raftReconfig r cookie ids).1 = output r := by
  obtain ⟨admitted, peers, cfg⟩ := admitChange_same r
  unfold raftReconfig
  split
  · rfl
  · rename_i taken
    split
    · rfl
    · rename_i new sorted
      simp only [Bool.or_eq_true, decide_eq_true_eq, not_or, Bool.not_eq_true] at taken
      obtain ⟨⟨⟨⟨⟨given, running⟩, leads⟩, stays⟩, settled⟩, idle⟩ := taken
      have wanted : (new == r.config.old || (raftNewServersCaughtUp r r.config.old new
          (raftLogLastIndex r.log) && new.any (awaited r))) = false := by
        simpa [answersAtOnce, given, of_not_not running, of_not_not leads, stays, settled, idle,
          sorted] using later
      rw [Bool.or_eq_false_iff] at wanted
      split
      · rename_i same
        simp [same] at wanted
      · dsimp only
        split
        · exact admitted
        · split
          · rename_i caughtUp
            split
            · exact admitted
            · rename_i learners _
              have free : new.any (awaited r) = false := by simpa [caughtUp] using wanted.2
              have same : awaited (setPending (admitChange r) new learners) = awaited r := by
                funext id
                unfold awaited raftFindPeer
                rw [show (setPending (admitChange r) new learners).peers = r.peers from peers,
                  show (setPending (admitChange r) new learners).cfg = r.cfg from cfg]
              have committed := raftCommitConfigEntry_output
                (r := setPending (admitChange r) new learners) cookie (by rw [same]; exact free)
              exact committed.trans admitted
          · exact admitted

/-- Requests add nothing to the output when the change among them is not answered at once. -/
theorem asked_output {r : Node} {asks : Asks} {cookie : Nat}
    (later : ∀ ids ∈ asks.change, answersAtOnce (asked r asks.published) cookie ids = false) :
    output (asked r (asks.messages cookie)) = output r := by
  have published : output (asked r asks.published) = output r := by
    cases given : asks.addr with
    | none => rw [Asks.published, given]; rfl
    | some map =>
      rw [Asks.published, given]
      exact raftSubmit_output r _
  cases wanted : asks.change with
  | none =>
    rw [Asks.messages, wanted]
    simpa using published
  | some ids =>
    have changed := raftReconfig_output (later ids wanted)
    rw [Asks.messages, wanted, asked, List.foldl_append]
    exact changed.trans published

end Kynovo.Server.Replacement
