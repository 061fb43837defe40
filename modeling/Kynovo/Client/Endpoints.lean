import Mathlib.Data.List.Dedup
import Mathlib.Data.List.Perm.Subperm
import Mathlib.Logic.Function.Basic
import Kynovo.Server.MembersText

/-! The client's list of endpoints: the seeds it was started with, then the members it
learned, and the endpoint it is on. -/
namespace Kynovo.Client.Endpoints
open Kynovo.Wal.Record (maxNodes)
open Kynovo.Server.AddressBook
open Kynovo.Server.MembersText

structure Endpoint where
  host : List UInt8
  port : Nat
deriving DecidableEq, Repr

/-- `K_MAX_NODES*2`, the length of the arrays. -/
def maxEndpoints : Nat := maxNodes * 2

/-- `hosts` and `ports`, the counts and the index. A slot at `hostCount` or past it keeps
what was last written there. -/
structure EndpointList where
  slots : Nat → Endpoint
  hostCount : Nat
  seedCount : Nat
  hostIndex : Nat

/-- The endpoints in use. -/
def EndpointList.known (endpoints : EndpointList) : List Endpoint :=
  (List.range endpoints.hostCount).map endpoints.slots

def kClientFindEndpoint (endpoints : EndpointList) (target : Endpoint) : Option Nat :=
  (List.range endpoints.hostCount).find? fun i => endpoints.slots i = target

/-- An endpoint is written behind the last one. -/
def EndpointList.append (endpoints : EndpointList) (target : Endpoint) : EndpointList :=
  { endpoints with
    slots := Function.update endpoints.slots endpoints.hostCount target
    hostCount := endpoints.hostCount + 1 }

def memberEndpoint (node : NodeSpec) : Endpoint := ⟨node.host, node.clientPort.toNat⟩

/-- One turn of the loop of `k_client_apply_members`. A full list ends the loop; the turns
left then change nothing. -/
def addMember (endpoints : EndpointList) (node : NodeSpec) : EndpointList :=
  if endpoints.hostCount < maxEndpoints then
    match kClientFindEndpoint endpoints (memberEndpoint node) with
    | some _ => endpoints
    | none => endpoints.append (memberEndpoint node)
  else endpoints

/-- The members a body names: nothing without a body, a line longer than the buffer or one
the cluster parser refuses. -/
def membersOf (body : List UInt8) : Option (List NodeSpec) :=
  if body = [] ∨ (cString body).length ≥ 2048 then none else kClusterParse (cString body)

def kClientApplyMembers (endpoints : EndpointList) (body : List UInt8) : EndpointList :=
  match membersOf body with
  | none => endpoints
  | some nodes => nodes.foldl addMember { endpoints with hostCount := endpoints.seedCount }

/-- What a redirect does to the list: an unknown target is appended, or with a full list
written over the endpoint the client is on. -/
def redirectTo (endpoints : EndpointList) (target : Endpoint) : EndpointList :=
  match kClientFindEndpoint endpoints target with
  | some i => { endpoints with hostIndex := i }
  | none =>
    if endpoints.hostCount < maxEndpoints then
      { endpoints.append target with hostIndex := endpoints.hostCount }
    else { endpoints with slots := Function.update endpoints.slots endpoints.hostIndex target }

/-- The failover of `k_client_on_closed`. -/
def failOver (endpoints : EndpointList) : EndpointList :=
  if endpoints.hostCount > 1 then
    { endpoints with hostIndex := (endpoints.hostIndex + 1) % endpoints.hostCount }
  else endpoints

/-! ## The seeds -/

/-- One item "host:port" of the seed list. -/
def parseSeed (item : List UInt8) : Option Endpoint := do
  let (host, portText) ← cutAt colon item
  if host = [] ∨ host.length ≥ hostMax then none
  else
    let port ← kParseUint portText 65535
    return ⟨host, port⟩

/-- The seeds from the cursor on, with room for so many. -/
def seedsFrom : Nat → List UInt8 → Option (List Endpoint)
  | 0, _ => some []
  | room + 1, cursor =>
    if cursor = [] then some []
    else
      let (item, rest) := nextItem cursor
      if item = [] ∨ item.length ≥ hostMax then none
      else
        match parseSeed item, rest with
        | none, _ => none
        | some seed, none => some [seed]
        | some seed, some cursor => (seedsFrom room cursor).map (seed :: ·)

/-- The seeds that `k_client_seed_parse` reads. -/
def kClientSeedParse (seedList : List UInt8) : Option (List Endpoint) :=
  if seedList = [] then none
  else (seedsFrom maxEndpoints seedList).filter (fun seeds => seeds ≠ [])

/-- The list of a client that has just parsed its seeds. -/
def startEndpoints (seeds : List Endpoint) : EndpointList :=
  { slots := fun i => seeds.getD i ⟨[], 0⟩
    hostCount := seeds.length
    seedCount := seeds.length
    hostIndex := 0 }

theorem seedsFrom_length {room : Nat} {cursor : List UInt8} {seeds : List Endpoint}
    (parsed : seedsFrom room cursor = some seeds) : seeds.length ≤ room := by
  induction room generalizing cursor seeds with
  | zero =>
    cases parsed
    exact Nat.le_refl 0
  | succ room ih =>
    unfold seedsFrom at parsed
    split at parsed
    · cases parsed
      exact Nat.zero_le _
    · dsimp only at parsed
      split at parsed
      · cases parsed
      · split at parsed
        · cases parsed
        · cases parsed
          simp
        · rename_i rest _ _
          obtain ⟨later, found, rfl⟩ := Option.map_eq_some_iff.mp parsed
          exact Nat.succ_le_succ (ih found)

theorem kClientSeedParse_some {seedList : List UInt8} {seeds : List Endpoint}
    (parsed : kClientSeedParse seedList = some seeds) :
    seeds ≠ [] ∧ seeds.length ≤ maxEndpoints := by
  unfold kClientSeedParse at parsed
  split at parsed
  · cases parsed
  · obtain ⟨found, nonempty⟩ := Option.filter_eq_some_iff.mp parsed
    exact ⟨by simpa using nonempty, seedsFrom_length found⟩

/-! ## The endpoints in use after each change -/

theorem known_length (endpoints : EndpointList) : endpoints.known.length = endpoints.hostCount := by
  simp [EndpointList.known]

theorem find_none {endpoints : EndpointList} {target : Endpoint} :
    kClientFindEndpoint endpoints target = none ↔ target ∉ endpoints.known := by
  unfold kClientFindEndpoint EndpointList.known
  simp

theorem find_some {endpoints : EndpointList} {target : Endpoint} {i : Nat}
    (found : kClientFindEndpoint endpoints target = some i) :
    i < endpoints.hostCount ∧ target ∈ endpoints.known := by
  have here := List.find?_some found
  have inside := List.mem_range.mp (List.mem_of_find?_eq_some found)
  refine ⟨inside, List.mem_map.mpr ⟨i, List.mem_range.mpr inside, ?_⟩⟩
  simpa using here

theorem known_append (endpoints : EndpointList) (target : Endpoint) :
    (endpoints.append target).known = endpoints.known ++ [target] := by
  unfold EndpointList.append EndpointList.known
  rw [List.range_succ, List.map_append]
  congr 1
  · apply List.map_congr_left
    intro i inside
    have before := List.mem_range.mp inside
    exact Function.update_of_ne (by omega) _ _
  · simp

theorem known_update (endpoints : EndpointList) (i : Nat) (target : Endpoint) :
    ({ endpoints with slots := Function.update endpoints.slots i target } : EndpointList).known =
      endpoints.known.set i target := by
  apply List.ext_getElem?
  intro j
  unfold EndpointList.known
  rw [List.getElem?_set]
  by_cases inside : j < endpoints.hostCount
  · by_cases same : i = j
    · subst same
      simp [inside]
    · simp [inside, same, Function.update_of_ne (Ne.symm same)]
  · by_cases same : i = j
    · subst same
      simp [inside]
    · simp [inside, same]

theorem known_shrink (endpoints : EndpointList) (count : Nat) (within : count ≤ endpoints.hostCount) :
    ({ endpoints with hostCount := count } : EndpointList).known = endpoints.known.take count := by
  unfold EndpointList.known
  rw [← List.map_take, List.take_range, Nat.min_eq_left within]

/-! ## The invariant -/

/-- The seeds stand first, unchanged and in order, and what follows them is listed once and
is no seed; the index is inside the list and the list inside its arrays. -/
structure Sound (seeds : List Endpoint) (endpoints : EndpointList) : Prop where
  indexed : endpoints.hostIndex < endpoints.hostCount
  bounded : endpoints.hostCount ≤ maxEndpoints
  seedCount : endpoints.seedCount = seeds.length
  seedsFirst : endpoints.known.take seeds.length = seeds
  distinct : (endpoints.known.drop seeds.length).Nodup
  apart : ∀ endpoint ∈ endpoints.known.drop seeds.length, endpoint ∉ seeds

/-- What the endpoints in use are made of. -/
def Listed (seeds found : List Endpoint) (endpoints : EndpointList) : Prop :=
  endpoints.known = seeds ++ found ∧ found.Nodup ∧ ∀ endpoint ∈ found, endpoint ∉ seeds

theorem Sound.listed {seeds : List Endpoint} {endpoints : EndpointList}
    (sound : Sound seeds endpoints) :
    Listed seeds (endpoints.known.drop seeds.length) endpoints := by
  refine ⟨?_, sound.distinct, sound.apart⟩
  conv_lhs => rw [← List.take_append_drop seeds.length endpoints.known, sound.seedsFirst]

theorem Listed.sound {seeds found : List Endpoint} {endpoints : EndpointList}
    (listed : Listed seeds found endpoints) (indexed : endpoints.hostIndex < endpoints.hostCount)
    (bounded : endpoints.hostCount ≤ maxEndpoints)
    (seedCount : endpoints.seedCount = seeds.length) : Sound seeds endpoints := by
  obtain ⟨known, distinct, apart⟩ := listed
  constructor
  · exact indexed
  · exact bounded
  · exact seedCount
  · rw [known, List.take_left]
  · rw [known, List.drop_left]
    exact distinct
  · rw [known, List.drop_left]
    exact apart

theorem Listed.hostCount {seeds found : List Endpoint} {endpoints : EndpointList}
    (listed : Listed seeds found endpoints) :
    endpoints.hostCount = seeds.length + found.length := by
  rw [← known_length, listed.1, List.length_append]

theorem Listed.append {seeds found : List Endpoint} {endpoints : EndpointList}
    (listed : Listed seeds found endpoints) {target : Endpoint}
    (unknown : target ∉ endpoints.known) :
    Listed seeds (found ++ [target]) (endpoints.append target) := by
  obtain ⟨known, distinct, apart⟩ := listed
  rw [known, List.mem_append, not_or] at unknown
  refine ⟨by rw [known_append, known, List.append_assoc], ?_, ?_⟩
  · apply List.nodup_append.mpr
    refine ⟨distinct, List.nodup_singleton target, ?_⟩
    intro a inside b same
    rw [List.mem_singleton.mp same]
    rintro rfl
    exact unknown.2 inside
  · intro endpoint member
    rcases List.mem_append.mp member with before | last
    · exact apart endpoint before
    · rw [List.mem_singleton.mp last]
      exact unknown.1

theorem startEndpoints_sound {seeds : List Endpoint} (nonempty : seeds ≠ [])
    (bounded : seeds.length ≤ maxEndpoints) : Sound seeds (startEndpoints seeds) := by
  have known : (startEndpoints seeds).known = seeds := by
    apply List.ext_getElem
    · simp [known_length, startEndpoints]
    · intro i inside given
      simp [EndpointList.known, startEndpoints, given]
  have listed : Listed seeds [] (startEndpoints seeds) := by
    refine ⟨by rw [known, List.append_nil], List.nodup_nil, ?_⟩
    intro endpoint member
    cases member
  exact listed.sound (List.length_pos_iff.mpr nonempty) bounded rfl

/-! ## Discovery -/

/-- The endpoints an answer adds to the seeds, each once. -/
def freshMembers (seeds : List Endpoint) (nodes : List NodeSpec) : List Endpoint :=
  ((nodes.map memberEndpoint).dedup).filter (· ∉ seeds)

theorem mem_freshMembers {seeds : List Endpoint} {nodes : List NodeSpec} {endpoint : Endpoint} :
    endpoint ∈ freshMembers seeds nodes ↔
      (∃ node ∈ nodes, memberEndpoint node = endpoint) ∧ endpoint ∉ seeds := by
  unfold freshMembers
  simp [List.mem_filter]

/-- The fields the rebuilding leaves alone. -/
theorem addMember_fields (endpoints : EndpointList) (node : NodeSpec) :
    (addMember endpoints node).hostIndex = endpoints.hostIndex ∧
      (addMember endpoints node).seedCount = endpoints.seedCount := by
  unfold addMember
  split
  · cases kClientFindEndpoint endpoints (memberEndpoint node) with
    | some i => exact ⟨rfl, rfl⟩
    | none => exact ⟨rfl, rfl⟩
  · exact ⟨rfl, rfl⟩

theorem foldl_addMember_fields (endpoints : EndpointList) (nodes : List NodeSpec) :
    (nodes.foldl addMember endpoints).hostIndex = endpoints.hostIndex ∧
      (nodes.foldl addMember endpoints).seedCount = endpoints.seedCount := by
  induction nodes generalizing endpoints with
  | nil => exact ⟨rfl, rfl⟩
  | cons node rest ih =>
    obtain ⟨index, count⟩ := addMember_fields endpoints node
    rw [List.foldl_cons, ← index, ← count]
    exact ih _

/-- One member keeps the list well made, adds nothing but that member and leaves it out only
when the list is full. -/
theorem Listed.addMember {seeds found : List Endpoint} {endpoints : EndpointList}
    (listed : Listed seeds found endpoints) (bounded : endpoints.hostCount ≤ maxEndpoints)
    (node : NodeSpec) :
    ∃ added, Listed seeds (found ++ added) (addMember endpoints node) ∧
      (Endpoints.addMember endpoints node).hostCount ≤ maxEndpoints ∧
      (∀ endpoint ∈ added, endpoint = memberEndpoint node) ∧
      ((Endpoints.addMember endpoints node).hostCount = maxEndpoints ∨
        memberEndpoint node ∈ seeds ++ (found ++ added)) := by
  unfold Endpoints.addMember
  by_cases room : endpoints.hostCount < maxEndpoints
  · rw [if_pos room]
    cases search : kClientFindEndpoint endpoints (memberEndpoint node) with
    | some i =>
      have member := (find_some search).2
      rw [listed.1] at member
      exact ⟨[], by simpa using listed, bounded, by simp, Or.inr (by simpa using member)⟩
    | none =>
      have unknown := find_none.mp search
      exact ⟨[memberEndpoint node], listed.append unknown, room, by simp, Or.inr (by simp)⟩
  · rw [if_neg room]
    exact ⟨[], by simpa using listed, bounded, by simp, Or.inl (by omega)⟩

/-- The whole answer: everything listed comes from it, and what it names is left out only
when the list is full. -/
theorem Listed.addMembers {seeds found : List Endpoint} {endpoints : EndpointList}
    (listed : Listed seeds found endpoints) (bounded : endpoints.hostCount ≤ maxEndpoints)
    (nodes : List NodeSpec) :
    ∃ added, Listed seeds (found ++ added) (nodes.foldl Endpoints.addMember endpoints) ∧
      (nodes.foldl Endpoints.addMember endpoints).hostCount ≤ maxEndpoints ∧
      (∀ endpoint ∈ added, ∃ node ∈ nodes, memberEndpoint node = endpoint) ∧
      ((nodes.foldl Endpoints.addMember endpoints).hostCount = maxEndpoints ∨
        ∀ node ∈ nodes, memberEndpoint node ∈ seeds ++ (found ++ added)) := by
  induction nodes generalizing found endpoints with
  | nil => exact ⟨[], by simpa using listed, bounded, by simp, Or.inr (by simp)⟩
  | cons node rest ih =>
    obtain ⟨one, afterOne, boundedOne, fromNode, first⟩ := listed.addMember bounded node
    obtain ⟨more, afterAll, boundedAll, fromRest, others⟩ := ih afterOne boundedOne
    rw [List.foldl_cons]
    refine ⟨one ++ more, by rwa [← List.append_assoc], boundedAll, ?_, ?_⟩
    · intro endpoint member
      rcases List.mem_append.mp member with early | late
      · exact ⟨node, List.mem_cons_self .., (fromNode endpoint early).symm⟩
      · obtain ⟨other, inside, same⟩ := fromRest endpoint late
        exact ⟨other, List.mem_cons_of_mem _ inside, same⟩
    · rcases others with full | named
      · exact Or.inl full
      · rcases first with full | here
        · -- a list that is full stays so
          left
          have before := afterOne.hostCount
          have grown := afterAll.hostCount
          rw [List.length_append] at grown
          omega
        · right
          intro other member
          rcases List.mem_cons.mp member with rfl | later
          · rw [← List.append_assoc, ← List.append_assoc]
            rw [← List.append_assoc] at here
            exact List.mem_append_left _ here
          · have placed := named other later
            rwa [List.append_assoc] at placed

/-- What an answer leaves: the seeds and the members that fit behind them, counted. -/
theorem Sound.applyMembers {seeds : List Endpoint} {endpoints : EndpointList}
    (sound : Sound seeds endpoints) {body : List UInt8} {nodes : List NodeSpec}
    (answer : membersOf body = some nodes) :
    ∃ found, Listed seeds found (kClientApplyMembers endpoints body) ∧
      (kClientApplyMembers endpoints body).hostCount =
        min maxEndpoints (seeds.length + (freshMembers seeds nodes).length) ∧
      (kClientApplyMembers endpoints body).hostIndex = endpoints.hostIndex ∧
      (kClientApplyMembers endpoints body).seedCount = seeds.length := by
  have within : endpoints.seedCount ≤ endpoints.hostCount := by
    have counted := sound.listed.hostCount
    rw [sound.seedCount]
    omega
  have start : Listed seeds [] { endpoints with hostCount := endpoints.seedCount } := by
    refine ⟨?_, List.nodup_nil, fun endpoint member => nomatch member⟩
    rw [known_shrink _ _ within, sound.seedCount, sound.seedsFirst, List.append_nil]
  have bounded : endpoints.seedCount ≤ maxEndpoints := within.trans sound.bounded
  obtain ⟨found, listed, fits, fromAnswer, complete⟩ := start.addMembers bounded nodes
  obtain ⟨index, count⟩ :=
    foldl_addMember_fields { endpoints with hostCount := endpoints.seedCount } nodes
  rw [List.nil_append] at listed complete
  have applied : kClientApplyMembers endpoints body =
      nodes.foldl addMember { endpoints with hostCount := endpoints.seedCount } := by
    unfold kClientApplyMembers
    rw [answer]
  rw [applied]
  refine ⟨found, listed, ?_, index, count.trans sound.seedCount⟩
  have fresh : found ⊆ freshMembers seeds nodes := by
    intro endpoint member
    exact mem_freshMembers.mpr ⟨fromAnswer endpoint member, listed.2.2 endpoint member⟩
  have atMost : found.length ≤ (freshMembers seeds nodes).length :=
    (List.subperm_of_subset listed.2.1 fresh).length_le
  have counted := listed.hostCount
  rcases complete with full | named
  · omega
  · have all : freshMembers seeds nodes ⊆ found := by
      intro endpoint member
      obtain ⟨⟨node, inside, rfl⟩, notSeed⟩ := mem_freshMembers.mp member
      exact (List.mem_append.mp (named node inside)).resolve_left notSeed
    have distinct : (freshMembers seeds nodes).Nodup := (List.nodup_dedup _).filter _
    have atLeast := (List.subperm_of_subset distinct all).length_le
    omega

/-- A MEMBERS answer keeps the list sound exactly if the list it leaves reaches past the
endpoint the client is on. -/
theorem Sound.applyMembers_iff {seeds : List Endpoint} {endpoints : EndpointList}
    (sound : Sound seeds endpoints) (body : List UInt8) :
    Sound seeds (kClientApplyMembers endpoints body) ↔
      ∀ nodes, membersOf body = some nodes →
        endpoints.hostIndex < min maxEndpoints (seeds.length + (freshMembers seeds nodes).length) := by
  cases answer : membersOf body with
  | none =>
    have kept : kClientApplyMembers endpoints body = endpoints := by
      unfold kClientApplyMembers
      rw [answer]
    rw [kept]
    exact iff_of_true sound (fun nodes given => nomatch given)
  | some nodes =>
    obtain ⟨found, listed, counted, index, seedCount⟩ := sound.applyMembers answer
    constructor
    · intro after other given
      cases given
      rw [← counted, ← index]
      exact after.indexed
    · intro reaches
      have indexed := reaches nodes rfl
      rw [← counted, ← index] at indexed
      apply listed.sound indexed
      · rw [counted]
        exact Nat.min_le_left _ _
      · exact seedCount

/-! ## Redirects and failover -/

/-- A redirect keeps the list sound unless it names an endpoint not listed while the list is
full and the client is on a seed. -/
theorem Sound.redirectTo_iff {seeds : List Endpoint} {endpoints : EndpointList}
    (sound : Sound seeds endpoints) (target : Endpoint) :
    Sound seeds (redirectTo endpoints target) ↔
      (target ∉ endpoints.known → endpoints.hostCount = maxEndpoints →
        seeds.length ≤ endpoints.hostIndex) := by
  unfold redirectTo
  cases search : kClientFindEndpoint endpoints target with
  | some i =>
    obtain ⟨inside, member⟩ := find_some search
    apply iff_of_true
    · exact ⟨inside, sound.bounded, sound.seedCount, sound.seedsFirst, sound.distinct, sound.apart⟩
    · intro unknown
      exact absurd member unknown
  | none =>
    have unknown := find_none.mp search
    dsimp only
    by_cases room : endpoints.hostCount < maxEndpoints
    · rw [if_pos room]
      apply iff_of_true
      · have listed := sound.listed.append unknown
        have moved : Listed seeds (endpoints.known.drop seeds.length ++ [target])
            { endpoints.append target with hostIndex := endpoints.hostCount } := listed
        exact moved.sound (Nat.lt_succ_self _) room sound.seedCount
      · intro _ full
        omega
    · rw [if_neg room]
      have full : endpoints.hostCount = maxEndpoints := Nat.le_antisymm sound.bounded (by omega)
      obtain ⟨known, distinct, apart⟩ := sound.listed
      have indexed := sound.indexed
      have total := sound.listed.hostCount
      generalize endpoints.known.drop seeds.length = found at known distinct apart total
      have overwritten := known_update endpoints endpoints.hostIndex target
      rw [known, List.mem_append, not_or] at unknown
      constructor
      · intro after _ _
        by_contra onSeed
        have onSeed : endpoints.hostIndex < seeds.length := by omega
        have kept := after.seedsFirst
        rw [overwritten, known, List.set_append_left _ _ onSeed, List.take_left' (by simp)] at kept
        apply unknown.1
        rw [← kept]
        exact List.mem_set onSeed target
      · intro past
        have pastSeeds := past (by rw [known, List.mem_append, not_or]; exact unknown) full
        have listed : Listed seeds (found.set (endpoints.hostIndex - seeds.length) target)
            { endpoints with
              slots := Function.update endpoints.slots endpoints.hostIndex target } := by
          refine ⟨?_, ?_, ?_⟩
          · rw [overwritten, known, List.set_append_right _ _ pastSeeds]
          · exact distinct.set unknown.2
          · intro endpoint member
            rcases List.mem_or_eq_of_mem_set member with before | rfl
            · exact apart endpoint before
            · exact unknown.1
        exact listed.sound indexed sound.bounded sound.seedCount

theorem Sound.failOver {seeds : List Endpoint} {endpoints : EndpointList}
    (sound : Sound seeds endpoints) : Sound seeds (failOver endpoints) := by
  unfold Endpoints.failOver
  split
  · rename_i several
    exact ⟨Nat.mod_lt _ (by omega), sound.bounded, sound.seedCount, sound.seedsFirst,
      sound.distinct, sound.apart⟩
  · exact sound

end Kynovo.Client.Endpoints
