import Mathlib.Algebra.Order.BigOperators.Group.List
import Kynovo.Lib.Runs
import Kynovo.Proto.Framing

/-! The server bounds the bytes that all client connections together have received and not
yet handled. One counter stands for them: a receive callback adds the change of its
buffer's length when the feed is over, and a close takes the closed buffer's length off.
The transport reports a close from inside the call that makes it, so a frame handler
whose answer cannot be sent closes a connection while its buffer is being fed. -/
namespace Kynovo.Server.RxAccount
open Kynovo.Lib.Runs
open Kynovo.Proto.Framing

def rxBytesMax : Nat := 67108864
def clientConnectionMax : Nat := 4096

inductive Kind where
  | client
  | peer
deriving DecidableEq, Repr

/-- An open connection. A closed one waits to be freed and is read by nobody. -/
structure Conn where
  id : Nat
  kind : Kind
  rx : List UInt8
  recvPaused : Bool
deriving DecidableEq, Repr

/-- Connections are told apart by the order in which they were created. -/
structure Server where
  connections : List Conn
  created : Nat
  clientConnectionCount : Nat
  rxBufferBytes : Nat
  admission : Bool
deriving DecidableEq, Repr

def Server.conn? (server : Server) (id : Nat) : Option Conn :=
  server.connections.find? (·.id == id)

def Server.change (server : Server) (id : Nat) (f : Conn → Conn) : Server :=
  { server with
    connections := server.connections.replaceF fun conn =>
      if conn.id == id then some (f conn) else none }

def kConnCreate (server : Server) (kind : Kind) : Server :=
  { server with
    connections := ⟨server.created, kind, [], false⟩ :: server.connections
    created := server.created + 1
    clientConnectionCount := if kind = .client then server.clientConnectionCount + 1
      else server.clientConnectionCount }

/-- The subtraction stops at zero. A connection closed before has no handle left to close. -/
def kConnClosed (server : Server) (id : Nat) : Server :=
  match server.conn? id with
  | none => server
  | some conn =>
    { server with
      connections := server.connections.eraseP (·.id == id)
      rxBufferBytes :=
        if conn.kind = .client then
          if conn.rx.length ≤ server.rxBufferBytes then server.rxBufferBytes - conn.rx.length else 0
        else server.rxBufferBytes
      clientConnectionCount :=
        if conn.kind = .client ∧ server.clientConnectionCount > 0 then
          server.clientConnectionCount - 1
        else server.clientConnectionCount }

/-- What one frame's handler does here: the connections whose sends fail under it, and its
return code. -/
structure Outcome where
  closes : List Nat
  ok : Bool
deriving DecidableEq, Repr

structure Serving where
  server : Server
  outcomes : List Outcome
deriving DecidableEq, Repr

/-- The handler of a frame, and the move of the buffer past the frame when it returns. -/
def handleFrame (id : Nat) (serving : Serving) (_type : UInt8) (payload : List UInt8) :
    Handled Serving :=
  let outcome := serving.outcomes.headD ⟨[], true⟩
  let server := outcome.closes.foldl kConnClosed serving.server
  let moved := if outcome.ok then
      server.change id fun conn => { conn with rx := conn.rx.drop (frameHeader + payload.length) }
    else server
  ⟨⟨moved, serving.outcomes.tail⟩, outcome.ok, (server.conn? id).isNone⟩

/-- `k_rx_feed` on the connection's own buffer: what it appends is in place before the
first handler runs. -/
def feedConn (magic : UInt32) (server : Server) (conn : Conn) (data : List UInt8)
    (outcomes : List Outcome) : Fed Serving :=
  let appended := match kRxAppend conn.rx data with
    | some rx => server.change conn.id fun conn => { conn with rx := rx }
    | none => server
  kRxFeed magic (handleFrame conn.id) conn.rx data ⟨appended, outcomes⟩

def admits (server : Server) (size : Nat) : Bool :=
  !(server.rxBufferBytes ≥ rxBytesMax || size > rxBytesMax - server.rxBufferBytes)

/-- The counter after a feed that took the buffer from one length to another, in 64 bits. -/
def recount (counter oldLen len : Nat) : Nat :=
  if len ≥ oldLen then (counter + (len - oldLen)) % 2 ^ 64
  else (counter + 2 ^ 64 - (oldLen - len)) % 2 ^ 64

/-- The rest of a receive callback: `busy` is any of the other limits, `recvOk` the
transport's answer to the next read. -/
def kServerClientReceived (server : Server) (conn : Conn) (data : List UInt8)
    (outcomes : List Outcome) (busy recvOk : Bool) : Server :=
  if admits server data.length then
    let fed := feedConn clientMagic server conn data outcomes
    match fed.ud.server.conn? conn.id with
    | none => fed.ud.server
    | some now =>
      let counted := { fed.ud.server with
        rxBufferBytes := recount fed.ud.server.rxBufferBytes conn.rx.length now.rx.length }
      if !fed.ok then kConnClosed counted conn.id
      else if busy || decide (counted.rxBufferBytes ≥ rxBytesMax) then
        counted.change conn.id fun conn => { conn with recvPaused := true }
      else if recvOk then counted
      else kConnClosed counted conn.id
  else kConnClosed server conn.id

def kServerPeerReceived (server : Server) (conn : Conn) (data : List UInt8)
    (outcomes : List Outcome) (recvOk : Bool) : Server :=
  let fed := feedConn peerMagic server conn data outcomes
  match fed.ud.server.conn? conn.id with
  | none => fed.ud.server
  | some _ => if fed.ok && recvOk then fed.ud.server else kConnClosed fed.ud.server conn.id

def kServerClientAccepted (server : Server) (busy recvOk : Bool) : Server :=
  if !server.admission || decide (server.clientConnectionCount ≥ clientConnectionMax) then server
  else
    let created := kConnCreate server .client
    if busy || decide (created.rxBufferBytes ≥ rxBytesMax) || !recvOk then
      created.change server.created fun conn => { conn with recvPaused := true }
    else created

def kServerPeerAccepted (server : Server) (linked : Bool) : Server :=
  if !server.admission then server
  else
    let created := kConnCreate server .peer
    if linked then created else kConnClosed created server.created

/-- A read is armed again once every limit has room; a failed arm is retried later. -/
def resume (server : Server) (busy : Bool) (recvOk : Nat → Bool) : Server :=
  if !busy && decide (server.rxBufferBytes < rxBytesMax) then
    { server with
      connections := server.connections.map fun conn =>
        if conn.kind = .client ∧ conn.recvPaused then
          { conn with recvPaused := !recvOk conn.id }
        else conn }
  else server

/-- What the event loop meets. A round of the server answers requests of any connection,
and a send that fails closes it. -/
inductive Event where
  | clientAccepted (busy recvOk : Bool)
  | peerAccepted (linked : Bool)
  | peerConnecting
  | peerDialed (id : Nat) (linked : Bool)
  | received (id : Nat) (data : List UInt8) (outcomes : List Outcome) (busy recvOk : Bool)
  | closed (id : Nat)
  | round (closes : List Nat) (busy : Bool) (recvOk : Nat → Bool)
  | admission (on : Bool)
  | release

def step (server : Server) : Event → Server
  | .clientAccepted busy recvOk => kServerClientAccepted server busy recvOk
  | .peerAccepted linked => kServerPeerAccepted server linked
  | .peerConnecting => kConnCreate server .peer
  | .peerDialed id linked => if linked then server else kConnClosed server id
  | .received id data outcomes busy recvOk =>
    match server.conn? id with
    | none => server
    | some conn => match conn.kind with
      | .client => kServerClientReceived server conn data outcomes busy recvOk
      | .peer => kServerPeerReceived server conn data outcomes recvOk
  | .closed id => kConnClosed server id
  | .round closes busy recvOk => resume (closes.foldl kConnClosed server) busy recvOk
  | .admission on => { server with admission := on }
  | .release =>
    { server with connections := [], clientConnectionCount := 0, rxBufferBytes := 0 }

def Starts (server : Server) : Prop :=
  server.connections = [] ∧ server.rxBufferBytes = 0

/-- The bytes a connection holds in the name of the counter. -/
def Conn.held (conn : Conn) : Nat := if conn.kind = .client then conn.rx.length else 0

/-- The receive buffers of all open client connections together. -/
def Server.held (server : Server) : Nat := (server.connections.map Conn.held).sum

/-- No handler of the received frames closes the client connection they came on. -/
def KeepsOwn (server : Server) : Event → Prop
  | .received id _ outcomes _ _ =>
    ∀ conn, server.conn? id = some conn → conn.kind = .client →
      ∀ outcome ∈ outcomes, id ∉ outcome.closes
  | _ => True

/-! ## One connection among the others -/

section
variable {conns : List Conn} {conn : Conn} {id other : Nat} {f : Conn → Conn} {server : Server}

theorem held_eraseP (found : conns.find? (·.id == id) = some conn) :
    ((conns.eraseP (·.id == id)).map Conn.held).sum + conn.held = (conns.map Conn.held).sum := by
  induction conns with
  | nil => cases found
  | cons first rest ih =>
    by_cases here : (first.id == id) = true
    · rw [List.find?_cons_of_pos (by exact here)] at found
      cases found
      rw [List.eraseP_cons_of_pos (by exact here), List.map_cons, List.sum_cons, Nat.add_comm]
    · rw [List.find?_cons_of_neg (by exact here)] at found
      have behind := ih found
      rw [List.eraseP_cons_of_neg (by exact here), List.map_cons, List.map_cons, List.sum_cons, List.sum_cons]
      omega

theorem find_eraseP (apart : other ≠ id) :
    (conns.eraseP (·.id == other)).find? (·.id == id) = conns.find? (·.id == id) := by
  induction conns with
  | nil => rfl
  | cons first rest ih =>
    by_cases here : first.id = other
    · rw [List.eraseP_cons_of_pos (by simpa using here), List.find?_cons_of_neg]
      simpa [here] using apart
    · rw [List.eraseP_cons_of_neg (by simpa using here), List.find?_cons, List.find?_cons, ih]

/-- A change of one connection shows in the sum by what it holds before and after. -/
theorem held_change (found : server.conn? id = some conn) :
    (server.change id f).held + conn.held = server.held + (f conn).held := by
  obtain ⟨conns, created, count, counter, admission⟩ := server
  simp only [Server.conn?, Server.change, Server.held] at found ⊢
  induction conns with
  | nil => cases found
  | cons first rest ih =>
    by_cases here : (first.id == id) = true
    · rw [List.find?_cons_of_pos (by exact here)] at found
      cases found
      rw [List.replaceF_cons, if_pos here]
      dsimp only
      rw [List.map_cons, List.map_cons, List.sum_cons, List.sum_cons]
      omega
    · rw [List.find?_cons_of_neg (by exact here)] at found
      have behind := ih found
      rw [List.replaceF_cons, if_neg here]
      dsimp only
      rw [List.map_cons, List.map_cons, List.sum_cons, List.sum_cons]
      omega

theorem conn_change (found : server.conn? id = some conn) (keeps : ∀ conn, (f conn).id = conn.id) :
    (server.change id f).conn? id = some (f conn) := by
  obtain ⟨conns, created, count, counter, admission⟩ := server
  simp only [Server.conn?, Server.change] at found ⊢
  induction conns with
  | nil => cases found
  | cons first rest ih =>
    by_cases here : (first.id == id) = true
    · rw [List.find?_cons_of_pos (by exact here)] at found
      cases found
      rw [List.replaceF_cons, if_pos here, List.find?_cons_of_pos (by rw [keeps]; exact here)]
    · rw [List.find?_cons_of_neg (by exact here)] at found
      rw [List.replaceF_cons, if_neg here, List.find?_cons_of_neg (by exact here), ih found]

theorem change_absent (absent : server.conn? id = none) : server.change id f = server := by
  obtain ⟨conns, created, count, counter, admission⟩ := server
  simp only [Server.conn?, Server.change, Server.mk.injEq, and_true] at absent ⊢
  apply List.replaceF_of_forall_none
  intro conn member
  rw [if_neg (List.find?_eq_none.mp absent conn member)]

theorem held_conn_le (found : server.conn? id = some conn) : conn.held ≤ server.held := by
  have rest := held_eraseP found
  rw [Server.held]
  omega

theorem kConnClosed_absent (absent : server.conn? id = none) : kConnClosed server id = server := by
  rw [kConnClosed, absent]

theorem kConnClosed_counter (found : server.conn? id = some conn) :
    (kConnClosed server id).rxBufferBytes = server.rxBufferBytes - conn.held := by
  rw [kConnClosed, found, Conn.held]
  dsimp only
  split
  · split <;> omega
  · rfl

theorem kConnClosed_held (found : server.conn? id = some conn) :
    (kConnClosed server id).held + conn.held = server.held := by
  rw [kConnClosed, found]
  exact held_eraseP found

theorem kConnClosed_other (apart : other ≠ id) :
    (kConnClosed server other).conn? id = server.conn? id := by
  cases found : server.conn? other with
  | none => rw [kConnClosed_absent found]
  | some conn =>
    rw [kConnClosed, found]
    exact find_eraseP apart

/-- The open connections have names of their own, all given out before. -/
structure Named (server : Server) : Prop where
  distinct : (server.connections.map Conn.id).Nodup
  given : ∀ id ∈ server.connections.map Conn.id, id < server.created

theorem ids_change (keeps : ∀ conn, (f conn).id = conn.id) :
    (server.change id f).connections.map Conn.id = server.connections.map Conn.id := by
  obtain ⟨conns, created, count, counter, admission⟩ := server
  simp only [Server.change]
  induction conns with
  | nil => rfl
  | cons first rest ih =>
    rw [List.replaceF_cons]
    by_cases here : (first.id == id) = true
    · rw [if_pos here]
      dsimp only
      rw [List.map_cons, List.map_cons, keeps]
    · rw [if_neg here]
      dsimp only
      rw [List.map_cons, List.map_cons, ih]

theorem Named.change (named : Named server) (keeps : ∀ conn, (f conn).id = conn.id) :
    Named (server.change id f) := by
  constructor
  · rw [ids_change keeps]
    exact named.distinct
  · rw [ids_change keeps]
    exact named.given

theorem Named.closed (named : Named server) : Named (kConnClosed server id) := by
  cases found : server.conn? id with
  | none =>
    rw [kConnClosed_absent found]
    exact named
  | some conn =>
    have fewer : ((kConnClosed server id).connections.map Conn.id).Sublist
        (server.connections.map Conn.id) := by
      rw [kConnClosed, found]
      exact List.Sublist.map _ List.eraseP_sublist
    have created : (kConnClosed server id).created = server.created := by
      rw [kConnClosed, found]
    constructor
    · exact named.distinct.sublist fewer
    · intro name member
      rw [created]
      exact named.given name (fewer.subset member)

theorem Named.gone (named : Named server) : (kConnClosed server id).conn? id = none := by
  cases found : server.conn? id with
  | none => rw [kConnClosed_absent found, found]
  | some conn =>
    rw [kConnClosed, found]
    obtain ⟨distinct, -⟩ := named
    obtain ⟨conns, created, count, counter, admission⟩ := server
    simp only [Server.conn?] at distinct found ⊢
    induction conns with
    | nil => cases found
    | cons first rest ih =>
      rw [List.map_cons, List.nodup_cons] at distinct
      by_cases here : first.id = id
      · rw [List.eraseP_cons_of_pos (by simpa using here), List.find?_eq_none]
        intro other member same
        apply distinct.1
        rw [here, ← beq_iff_eq.mp same]
        exact List.mem_map_of_mem member
      · rw [List.find?_cons_of_neg (by simpa using here)] at found
        rw [List.eraseP_cons_of_neg (by simpa using here),
          List.find?_cons_of_neg (by simpa using here)]
        exact ih found distinct.2

end

/-! ## A feed -/

section
variable {server : Server} {id old : Nat} {kind : Kind} {rx : List UInt8}

/-- During a feed the counter has the connection's buffer at the length from before. A
connection that was closed meanwhile is out of the counter. -/
structure Feeding (server : Server) (id : Nat) (kind : Kind) (old : Nat) (rx : List UInt8) :
    Prop where
  named : Named server
  counted : (∃ conn, server.conn? id = some conn ∧ conn.kind = kind ∧ conn.rx = rx ∧
      server.held + old = server.rxBufferBytes + conn.held) ∨
    (server.conn? id = none ∧ server.held = server.rxBufferBytes)

theorem Conn.held_peer {conn : Conn} (peer : conn.kind = .peer) : conn.held = 0 := by
  rw [Conn.held, if_neg (by rw [peer]; decide)]

theorem Conn.held_client {conn : Conn} (client : conn.kind = .client) :
    conn.held = conn.rx.length := if_pos client

/-- The close of a connection other than a client whose buffer is being fed. -/
theorem Feeding.close (feeding : Feeding server id kind old rx) (uncounted : kind = .peer → old = 0)
    {target : Nat} (keeps : kind = .client → target ≠ id) :
    Feeding (kConnClosed server target) id kind old rx ∧
      (kConnClosed server target).rxBufferBytes ≤ server.rxBufferBytes := by
  cases found : server.conn? target with
  | none =>
    rw [kConnClosed_absent found]
    exact ⟨feeding, Nat.le_refl _⟩
  | some closed =>
    have counter := kConnClosed_counter found
    have held := kConnClosed_held found
    refine ⟨⟨feeding.named.closed, ?_⟩, by omega⟩
    by_cases own : target = id
    · subst own
      right
      refine ⟨feeding.named.gone, ?_⟩
      have peer : kind = .peer := by
        cases kind with
        | client => exact absurd rfl (keeps rfl)
        | peer => rfl
      obtain ⟨conn, present, same, -, counted⟩ | ⟨absent, -⟩ := feeding.counted
      · rw [present] at found
        cases found
        have none' := Conn.held_peer (same.trans peer)
        have before := uncounted peer
        omega
      · rw [absent] at found
        cases found
    · rw [kConnClosed_other own]
      obtain ⟨conn, present, same, bytes, counted⟩ | ⟨absent, counted⟩ := feeding.counted
      · left
        refine ⟨conn, present, same, bytes, ?_⟩
        have still := held_conn_le ((kConnClosed_other own).trans present)
        omega
      · right
        exact ⟨absent, by omega⟩

theorem Feeding.closes (feeding : Feeding server id kind old rx)
    (uncounted : kind = .peer → old = 0) {closes : List Nat} (keeps : kind = .client → id ∉ closes) :
    Feeding (closes.foldl kConnClosed server) id kind old rx ∧
      (closes.foldl kConnClosed server).rxBufferBytes ≤ server.rxBufferBytes := by
  induction closes generalizing server with
  | nil => exact ⟨feeding, Nat.le_refl _⟩
  | cons target rest ih =>
    have apart : kind = .client → target ≠ id := by
      intro client same
      apply keeps client
      rw [same]
      exact List.mem_cons_self
    obtain ⟨closed, less⟩ := feeding.close uncounted apart
    obtain ⟨later, fewer⟩ := ih closed fun client member =>
      keeps client (List.mem_cons_of_mem _ member)
    exact ⟨later, Nat.le_trans fewer less⟩

/-- The buffer of the connection is replaced, and the counter stays. -/
theorem Feeding.refill (feeding : Feeding server id kind old rx) (f : List UInt8 → List UInt8) :
    Feeding (server.change id fun conn => { conn with rx := f conn.rx }) id kind old (f rx) := by
  refine ⟨feeding.named.change fun _ => rfl, ?_⟩
  obtain ⟨conn, present, same, bytes, counted⟩ | ⟨absent, counted⟩ := feeding.counted
  · left
    have held := held_change (f := fun conn => { conn with rx := f conn.rx }) present
    refine ⟨_, conn_change present fun _ => rfl, same, by rw [bytes], ?_⟩
    have counter : (server.change id fun conn => { conn with rx := f conn.rx }).rxBufferBytes =
      server.rxBufferBytes := rfl
    omega
  · right
    rw [change_absent absent]
    exact ⟨absent, counted⟩

/-- One frame: its handler's closes, and the move past it. -/
theorem Feeding.frame {serving : Serving} (feeding : Feeding serving.server id kind old rx)
    (uncounted : kind = .peer → old = 0)
    (keeps : kind = .client → ∀ outcome ∈ serving.outcomes, id ∉ outcome.closes) (type : UInt8)
    (payload : List UInt8) :
    Feeding (handleFrame id serving type payload).ud.server id kind old
      (if (handleFrame id serving type payload).ok then
        rx.drop (frameHeader + payload.length) else rx) ∧
      (handleFrame id serving type payload).ud.server.rxBufferBytes ≤
        serving.server.rxBufferBytes ∧
      (kind = .client → ∀ outcome ∈ (handleFrame id serving type payload).ud.outcomes,
        id ∉ outcome.closes) := by
  obtain ⟨server, outcomes⟩ := serving
  have head : kind = .client → id ∉ (outcomes.headD ⟨[], true⟩).closes := by
    intro client
    cases outcomes with
    | nil => exact List.not_mem_nil
    | cons outcome rest => exact keeps client outcome List.mem_cons_self
  obtain ⟨closed, less⟩ := feeding.closes uncounted head
  refine ⟨?_, ?_, ?_⟩
  · simp only [handleFrame]
    cases ok : (outcomes.headD ⟨[], true⟩).ok with
    | true => exact closed.refill (List.drop (frameHeader + payload.length))
    | false => exact closed
  · simp only [handleFrame]
    split
    · exact less
    · exact less
  · intro client outcome member
    exact keeps client outcome (List.mem_of_mem_tail member)

theorem handleFrame_closed (serving : Serving) (type : UInt8) (payload : List UInt8) :
    (handleFrame id serving type payload).closed =
      ((handleFrame id serving type payload).ud.server.conn? id).isNone := by
  simp only [handleFrame]
  cases present : ((serving.outcomes.headD ⟨[], true⟩).closes.foldl kConnClosed
      serving.server).conn? id with
  | none =>
    rw [change_absent present, ite_self, present]
  | some conn =>
    split
    · rw [conn_change present (by exact fun _ => rfl)]
      rfl
    · rw [present]

/-- The buffer of a closed connection is gone. -/
theorem Feeding.of_closed (feeding : Feeding server id kind old rx)
    (closed : (server.conn? id).isNone = true) (other : List UInt8) :
    Feeding server id kind old other := by
  refine ⟨feeding.named, ?_⟩
  obtain ⟨conn, present, -⟩ | done := feeding.counted
  · rw [present] at closed
    cases closed
  · exact .inr done

/-- The delivery loop, frame by frame. -/
theorem Feeding.delivered (magic : UInt32) {serving : Serving}
    (feeding : Feeding serving.server id kind old rx) (uncounted : kind = .peer → old = 0)
    (keeps : kind = .client → ∀ outcome ∈ serving.outcomes, id ∉ outcome.closes) :
    Feeding (deliver magic (handleFrame id) rx serving).ud.server id kind old
      (deliver magic (handleFrame id) rx serving).rx ∧
      (deliver magic (handleFrame id) rx serving).ud.server.rxBufferBytes ≤
        serving.server.rxBufferBytes ∧
      (deliver magic (handleFrame id) rx serving).rx.length ≤ rx.length := by
  fun_induction deliver magic (handleFrame id) rx serving with
  | case1 rx serving short => exact ⟨feeding, Nat.le_refl _, Nat.le_refl _⟩
  | case2 rx serving _ bad => exact ⟨feeding, Nat.le_refl _, Nat.le_refl _⟩
  | case3 rx serving _ _ large => exact ⟨feeding, Nat.le_refl _, Nat.le_refl _⟩
  | case4 rx serving _ _ _ partial' => exact ⟨feeding, Nat.le_refl _, Nat.le_refl _⟩
  | case5 rx serving _ _ _ _ handled refused =>
    obtain ⟨after, less, -⟩ := feeding.frame uncounted keeps (readType rx)
      ((rx.drop frameHeader).take (readSize rx))
    rw [if_neg (by simpa [handled] using refused)] at after
    refine ⟨?_, less, ?_⟩
    · split
      · rename_i closed
        exact after.of_closed ((handleFrame_closed _ _ _).symm.trans closed) _
      · exact after
    · split
      · exact Nat.zero_le _
      · exact Nat.le_refl _
  | case6 rx serving _ _ _ _ handled accepted closed =>
    obtain ⟨after, less, -⟩ := feeding.frame uncounted keeps (readType rx)
      ((rx.drop frameHeader).take (readSize rx))
    exact ⟨after.of_closed ((handleFrame_closed _ _ _).symm.trans closed) _, less, Nat.zero_le _⟩
  | case7 rx serving _ _ _ whole handled accepted still ih =>
    obtain ⟨after, less, later⟩ := feeding.frame uncounted keeps (readType rx)
      ((rx.drop frameHeader).take (readSize rx))
    have size : ((rx.drop frameHeader).take (readSize rx)).length = readSize rx := by
      rw [List.length_take, List.length_drop]
      omega
    rw [if_pos (by simpa [handled] using accepted), size] at after
    obtain ⟨fed, fewer, shorter⟩ := ih after later
    refine ⟨fed, Nat.le_trans fewer less, ?_⟩
    rw [List.length_drop] at shorter
    omega

end

/-! ## The counter between the callbacks -/

section
variable {server : Server} {conn : Conn} {id : Nat} {f : Conn → Conn}

structure Accounted (server : Server) : Prop where
  named : Named server
  counted : server.rxBufferBytes = server.held
  bounded : server.held ≤ rxBytesMax

theorem Accounted.closed (accounted : Accounted server) : Accounted (kConnClosed server id) := by
  cases found : server.conn? id with
  | none =>
    rw [kConnClosed_absent found]
    exact accounted
  | some conn =>
    have counter := kConnClosed_counter found
    have held := kConnClosed_held found
    have counted := accounted.counted
    have bounded := accounted.bounded
    exact ⟨accounted.named.closed, by omega, by omega⟩

theorem Accounted.closes (accounted : Accounted server) (closes : List Nat) :
    Accounted (closes.foldl kConnClosed server) := by
  induction closes generalizing server with
  | nil => exact accounted
  | cons target rest ih => exact ih accounted.closed

/-- A change that leaves the buffer alone, as a pause. -/
theorem Accounted.change (accounted : Accounted server) (keeps : ∀ conn, (f conn).id = conn.id)
    (holds : ∀ conn, (f conn).held = conn.held) : Accounted (server.change id f) := by
  have held : (server.change id f).held = server.held := by
    cases found : server.conn? id with
    | none => rw [change_absent found]
    | some conn =>
      have sum := held_change (f := f) found
      have same := holds conn
      omega
  refine ⟨accounted.named.change keeps, ?_, ?_⟩
  · rw [held]
    exact accounted.counted
  · rw [held]
    exact accounted.bounded

theorem Accounted.create (accounted : Accounted server) (kind : Kind) :
    Accounted (kConnCreate server kind) := by
  have held : (kConnCreate server kind).held = server.held := by
    simp [Server.held, kConnCreate, Conn.held]
  have fresh : server.created ∉ server.connections.map Conn.id := by
    intro member
    exact Nat.lt_irrefl _ (accounted.named.given _ member)
  refine ⟨⟨?_, ?_⟩, ?_, ?_⟩
  · exact List.nodup_cons.mpr ⟨fresh, accounted.named.distinct⟩
  · intro id member
    obtain rfl | old := List.mem_cons.mp member
    · exact Nat.lt_succ_self _
    · exact Nat.lt_succ_of_lt (accounted.named.given id old)
  · rw [held]
    exact accounted.counted
  · rw [held]
    exact accounted.bounded

theorem Accounted.resume (accounted : Accounted server) (busy : Bool) (recvOk : Nat → Bool) :
    Accounted (resume server busy recvOk) := by
  unfold RxAccount.resume
  split
  · have ids : (server.connections.map fun conn =>
        if conn.kind = .client ∧ conn.recvPaused then
          { conn with recvPaused := !recvOk conn.id } else conn).map Conn.id =
        server.connections.map Conn.id := by
      rw [List.map_map]
      apply List.map_congr_left
      intro conn _
      dsimp only [Function.comp]
      split <;> rfl
    have held : ((server.connections.map fun conn =>
        if conn.kind = .client ∧ conn.recvPaused then
          { conn with recvPaused := !recvOk conn.id } else conn).map Conn.held).sum =
        server.held := by
      rw [List.map_map]
      congr 1
      apply List.map_congr_left
      intro conn _
      dsimp only [Function.comp]
      split <;> rfl
    refine ⟨⟨?_, ?_⟩, ?_, ?_⟩
    · exact ids ▸ accounted.named.distinct
    · intro id member
      exact accounted.named.given id (ids ▸ member)
    · exact accounted.counted.trans held.symm
    · exact held.trans_le accounted.bounded
  · exact accounted

/-- What a feed leaves: the counter stands for the buffer as it was before. -/
theorem Accounted.feedConn (accounted : Accounted server) (found : server.conn? id = some conn)
    (magic : UInt32) (data : List UInt8) {outcomes : List Outcome}
    (keeps : conn.kind = .client → ∀ outcome ∈ outcomes, conn.id ∉ outcome.closes) :
    Feeding (feedConn magic server conn data outcomes).ud.server conn.id conn.kind conn.held
      (feedConn magic server conn data outcomes).rx ∧
      (feedConn magic server conn data outcomes).ud.server.rxBufferBytes ≤ server.rxBufferBytes ∧
      (feedConn magic server conn data outcomes).rx.length ≤ conn.rx.length + data.length := by
  have same : conn.id = id := by simpa using List.find?_some found
  subst same
  have counted := accounted.counted
  have start : Feeding server conn.id conn.kind conn.held conn.rx :=
    ⟨accounted.named, .inl ⟨conn, found, rfl, rfl, by omega⟩⟩
  cases appended : kRxAppend conn.rx data with
  | none =>
    have fed : RxAccount.feedConn magic server conn data outcomes =
        ⟨false, conn.rx, ⟨server, outcomes⟩⟩ := by
      simp only [RxAccount.feedConn, kRxFeed, appended]
    rw [fed]
    exact ⟨start, Nat.le_refl _, Nat.le_add_right _ _⟩
  | some rx =>
    have fed : RxAccount.feedConn magic server conn data outcomes =
        deliver magic (handleFrame conn.id) rx
          ⟨server.change conn.id fun conn => { conn with rx := rx }, outcomes⟩ := by
      simp only [RxAccount.feedConn, kRxFeed, appended]
    have length : rx.length = conn.rx.length + data.length := by
      unfold kRxAppend at appended
      split at appended
      · cases appended
      · cases appended
        exact List.length_append
    have filled : Feeding (Serving.mk (server.change conn.id fun conn => { conn with rx := rx })
        outcomes).server conn.id conn.kind conn.held rx := start.refill fun _ => rx
    rw [fed, ← length]
    exact filled.delivered magic (fun peer => Conn.held_peer peer) keeps

theorem Accounted.clientReceived (accounted : Accounted server)
    (found : server.conn? id = some conn) (client : conn.kind = .client) (data : List UInt8)
    {outcomes : List Outcome} (keeps : ∀ outcome ∈ outcomes, conn.id ∉ outcome.closes)
    (busy recvOk : Bool) :
    Accounted (kServerClientReceived server conn data outcomes busy recvOk) := by
  obtain ⟨feeding, less, longer⟩ := accounted.feedConn found clientMagic data fun _ => keeps
  unfold kServerClientReceived
  split
  · rename_i admitted
    have room : server.rxBufferBytes + data.length ≤ rxBytesMax := by
      simp only [admits, Bool.not_eq_true', Bool.or_eq_false_iff, decide_eq_false_iff_not] at admitted
      omega
    have before := Conn.held_client client
    dsimp only
    split
    · rename_i absent
      obtain ⟨now, present, -⟩ | ⟨-, counted⟩ := feeding.counted
      · rw [present] at absent
        cases absent
      · exact ⟨feeding.named, counted.symm, by omega⟩
    · rename_i now present
      obtain ⟨same, again, kind, bytes, counted⟩ | ⟨absent, -⟩ := feeding.counted
      · rw [again] at present
        cases present
        have after := Conn.held_client (kind.trans client)
        rw [← bytes] at longer
        have small : rxBytesMax < 2 ^ 64 := by decide
        have exact' : recount
            (RxAccount.feedConn clientMagic server conn data outcomes).ud.server.rxBufferBytes
            conn.rx.length now.rx.length =
            (RxAccount.feedConn clientMagic server conn data outcomes).ud.server.held := by
          unfold recount
          split <;> omega
        have settled : Accounted { (RxAccount.feedConn clientMagic server conn data
            outcomes).ud.server with
            rxBufferBytes := recount
              (RxAccount.feedConn clientMagic server conn data outcomes).ud.server.rxBufferBytes
              conn.rx.length now.rx.length } := by
          refine ⟨⟨feeding.named.distinct, feeding.named.given⟩, exact', ?_⟩
          change (RxAccount.feedConn clientMagic server conn data outcomes).ud.server.held ≤ _
          omega
        split
        · exact settled.closed
        · split
          · exact settled.change (fun _ => rfl) fun _ => rfl
          · split
            · exact settled
            · exact settled.closed
      · rw [absent] at present
        cases present
  · exact accounted.closed

theorem Accounted.peerReceived (accounted : Accounted server)
    (found : server.conn? id = some conn) (peer : conn.kind = .peer) (data : List UInt8)
    (outcomes : List Outcome) (recvOk : Bool) :
    Accounted (kServerPeerReceived server conn data outcomes recvOk) := by
  have keeps : conn.kind = .client → ∀ outcome ∈ outcomes, conn.id ∉ outcome.closes :=
    fun client => absurd (peer.symm.trans client) (by decide)
  obtain ⟨feeding, less, -⟩ := accounted.feedConn found peerMagic data keeps
  have counted : (RxAccount.feedConn peerMagic server conn data outcomes).ud.server.rxBufferBytes =
      (RxAccount.feedConn peerMagic server conn data outcomes).ud.server.held := by
    have before := Conn.held_peer peer
    obtain ⟨now, -, kind, -, counted⟩ | ⟨-, counted⟩ := feeding.counted
    · have after := Conn.held_peer (kind.trans peer)
      omega
    · exact counted.symm
  have after : Accounted (RxAccount.feedConn peerMagic server conn data outcomes).ud.server := by
    refine ⟨feeding.named, counted, ?_⟩
    have bounded := accounted.bounded
    have now := accounted.counted
    omega
  unfold kServerPeerReceived
  dsimp only
  split
  · exact after
  · split
    · exact after
    · exact after.closed

/-- Every event keeps the account, unless a handler closes the client whose frame it
handles. -/
theorem Accounted.step (accounted : Accounted server) (event : Event)
    (keeps : KeepsOwn server event) : Accounted (step server event) := by
  cases event with
  | clientAccepted busy recvOk =>
    simp only [RxAccount.step, kServerClientAccepted]
    split
    · exact accounted
    · split
      · exact (accounted.create .client).change (fun _ => rfl) fun _ => rfl
      · exact accounted.create .client
  | peerAccepted linked =>
    simp only [RxAccount.step, kServerPeerAccepted]
    split
    · exact accounted
    · split
      · exact accounted.create .peer
      · exact (accounted.create .peer).closed
  | peerConnecting => exact accounted.create .peer
  | peerDialed id linked =>
    simp only [RxAccount.step]
    split
    · exact accounted
    · exact accounted.closed
  | received id data outcomes busy recvOk =>
    simp only [RxAccount.step]
    split
    · exact accounted
    · rename_i conn found
      have same : conn.id = id := by simpa using List.find?_some found
      split
      · rename_i client
        apply accounted.clientReceived found client
        rw [same]
        exact keeps conn found client
      · rename_i peer
        exact accounted.peerReceived found peer data outcomes recvOk
  | closed id => exact accounted.closed
  | round closes busy recvOk => exact (accounted.closes closes).resume busy recvOk
  | admission on => exact ⟨⟨accounted.named.distinct, accounted.named.given⟩, accounted.counted,
      accounted.bounded⟩
  | release =>
    exact ⟨⟨List.nodup_nil, fun _ member => absurd member List.not_mem_nil⟩, rfl, Nat.zero_le _⟩

/-- As long as no frame handler closes the client connection whose frame it handles, the
counter is the sum of the client buffers, within the limit, and a chunk is admitted exactly
when the sum has room for it. -/
theorem rx_buffer_bytes_accounted (reached : Reaches Starts RxAccount.step KeepsOwn server) :
    server.rxBufferBytes = server.held ∧ server.held ≤ rxBytesMax ∧
      ∀ size, admits server size = true ↔
        server.held < rxBytesMax ∧ server.held + size ≤ rxBytesMax := by
  have accounted : Accounted server := by
    refine reached.invariant ?_ fun s event before keeps => before.step event keeps
    rintro s ⟨empty, zero⟩
    refine ⟨⟨?_, ?_⟩, ?_, ?_⟩
    · rw [empty]
      exact List.nodup_nil
    · rw [empty]
      exact fun _ member => absurd member List.not_mem_nil
    · rw [zero, Server.held, empty]
      rfl
    · rw [Server.held, empty]
      exact Nat.zero_le _
  refine ⟨accounted.counted, accounted.bounded, ?_⟩
  intro size
  simp only [admits, accounted.counted, Bool.not_eq_true', Bool.or_eq_false_iff,
    decide_eq_false_iff_not]
  omega

/-- Two clients are connected, and the first has sent one byte of a frame. -/
def oneByte : List Event :=
  [.clientAccepted false true, .clientAccepted false true, .received 0 [75] [] false true]

def oneByteHeld : Server :=
  ⟨[⟨1, .client, [], false⟩, ⟨0, .client, [75], false⟩], 2, 2, 1, true⟩

theorem oneByte_run : oneByte.foldl RxAccount.step ⟨[], 0, 0, 0, true⟩ = oneByteHeld := by
  change kServerClientReceived ⟨[⟨1, .client, [], false⟩, ⟨0, .client, [], false⟩], 2, 2, 0, true⟩
    ⟨0, .client, [], false⟩ [75] [] false true = _
  have fed : RxAccount.feedConn clientMagic
      ⟨[⟨1, .client, [], false⟩, ⟨0, .client, [], false⟩], 2, 2, 0, true⟩
      ⟨0, .client, [], false⟩ [75] [] =
      ⟨true, [75], ⟨⟨[⟨1, .client, [], false⟩, ⟨0, .client, [75], false⟩], 2, 2, 0, true⟩, []⟩⟩ := by
    change deliver clientMagic (handleFrame 0) [75] _ = _
    rw [deliver, if_pos (by decide)]
    rfl
  rw [kServerClientReceived, if_pos (by decide), fed]
  rfl

/-- The run meets every condition that asks nothing of a feed without closes. -/
theorem oneByteHeld_reached {cond : Server → Event → Prop}
    (accepts : ∀ server, cond server (.clientAccepted false true))
    (receives : ∀ server, cond server (.received 0 [75] [] false true)) :
    Reaches Starts RxAccount.step cond oneByteHeld := by
  have start : Reaches Starts RxAccount.step cond ⟨[], 0, 0, 0, true⟩ := .start ⟨rfl, rfl⟩
  have connected := (start.step (accepts _)).step (accepts _)
  have run := connected.step (receives _)
  rw [← oneByte_run]
  exact run

theorem oneByteHeld_kept : Reaches Starts RxAccount.step KeepsOwn oneByteHeld := by
  apply oneByteHeld_reached
  · intro server
    trivial
  · intro server conn _ _ outcome member
    cases member

/-- The second client's frame is handled, the first client is closed by a send that fails
under its handler, and one more byte is left. -/
def handled : Event :=
  .received 1 (frameBytes clientMagic ⟨19, [1, 0, 0, 0]⟩ ++ [75]) [⟨[0], true⟩] false true

/-- A third client sends what is no frame. -/
def noFrame : Event := .received 2 (List.replicate 20 0) [] false true

def secondHeld : Server := ⟨[⟨1, .client, [75], false⟩], 2, 1, 1, true⟩

theorem handled_step : RxAccount.step oneByteHeld handled = secondHeld := by
  have fed : RxAccount.feedConn clientMagic oneByteHeld ⟨1, .client, [], false⟩
      (frameBytes clientMagic ⟨19, [1, 0, 0, 0]⟩ ++ [75]) [⟨[0], true⟩] =
      ⟨true, [75], ⟨⟨[⟨1, .client, [75], false⟩], 2, 1, 0, true⟩, []⟩⟩ := by
    change deliver clientMagic (handleFrame 1)
      (frameBytes clientMagic ⟨19, [1, 0, 0, 0]⟩ ++ [75]) _ = _
    rw [deliver, if_neg (by decide), if_neg (by decide), if_neg (by decide), if_neg (by decide)]
    dsimp only
    rw [if_neg (by decide), if_neg (by decide)]
    change deliver clientMagic (handleFrame 1) [75] _ = _
    rw [deliver, if_pos (by decide)]
    rfl
  change kServerClientReceived oneByteHeld ⟨1, .client, [], false⟩ _ _ false true = _
  rw [kServerClientReceived, if_pos (by decide), fed]
  rfl

theorem noFrame_step :
    RxAccount.step (RxAccount.step secondHeld (.clientAccepted false true)) noFrame =
      ⟨[⟨1, .client, [75], false⟩], 3, 1, 1, true⟩ := by
  have fed : RxAccount.feedConn clientMagic
      ⟨[⟨2, .client, [], false⟩, ⟨1, .client, [75], false⟩], 3, 2, 1, true⟩
      ⟨2, .client, [], false⟩ (List.replicate 20 0) [] =
      ⟨false, List.replicate 20 0, ⟨⟨[⟨2, .client, List.replicate 20 0, false⟩,
        ⟨1, .client, [75], false⟩], 3, 2, 1, true⟩, []⟩⟩ := by
    change deliver clientMagic (handleFrame 2) (List.replicate 20 0) _ = _
    rw [deliver, if_neg (by decide), if_pos (by decide)]
    rfl
  change kServerClientReceived
    ⟨[⟨2, .client, [], false⟩, ⟨1, .client, [75], false⟩], 3, 2, 1, true⟩
    ⟨2, .client, [], false⟩ _ _ false true = _
  rw [kServerClientReceived, if_pos (by decide), fed]
  rfl

/-- A handler that closes another client, and a client that breaks the protocol: the
counter is what is left. -/
theorem closed_clients_accounted : ∃ server, Reaches Starts RxAccount.step KeepsOwn server ∧
    server.connections = [⟨1, .client, [75], false⟩] ∧ server.created = 3 ∧
    server.rxBufferBytes = 1 ∧ (∀ size, admits server size = true ↔
      server.held < rxBytesMax ∧ server.held + size ≤ rxBytesMax) := by
  have answered : Reaches Starts RxAccount.step KeepsOwn secondHeld := by
    rw [← handled_step]
    refine oneByteHeld_kept.step ?_
    intro conn _ _ outcome member
    rw [List.mem_singleton.mp member]
    decide
  have accepted : KeepsOwn secondHeld (.clientAccepted false true) := trivial
  have refused : KeepsOwn (RxAccount.step secondHeld (.clientAccepted false true)) noFrame := by
    intro conn _ _ outcome member
    cases member
  have reached := (answered.step accepted).step refused
  rw [noFrame_step] at reached
  exact ⟨_, reached, rfl, rfl, rfl, (rx_buffer_bytes_accounted reached).2.2⟩

/-- The second client asks for help, and the answer cannot be sent: the close takes the
whole request off the counter, which never had it. -/
theorem failed_answer_miscounts :
    ∃ server, Reaches Starts RxAccount.step (fun _ _ => True) server ∧
      server.rxBufferBytes = 0 ∧ server.held = 1 := by
  have fed : RxAccount.feedConn clientMagic oneByteHeld ⟨1, .client, [], false⟩
      (frameBytes clientMagic ⟨19, [1, 0, 0, 0]⟩) [⟨[1], false⟩] =
      ⟨false, [], ⟨⟨[⟨0, .client, [75], false⟩], 2, 1, 0, true⟩, []⟩⟩ := by
    change deliver clientMagic (handleFrame 1) (frameBytes clientMagic ⟨19, [1, 0, 0, 0]⟩) _ = _
    rw [deliver, if_neg (by decide), if_neg (by decide), if_neg (by decide), if_neg (by decide)]
    rfl
  have lost : RxAccount.step oneByteHeld (.received 1
      (frameBytes clientMagic ⟨19, [1, 0, 0, 0]⟩) [⟨[1], false⟩] false true) =
      ⟨[⟨0, .client, [75], false⟩], 2, 1, 0, true⟩ := by
    change kServerClientReceived oneByteHeld ⟨1, .client, [], false⟩ _ _ false true = _
    rw [kServerClientReceived, if_pos (by decide), fed]
    rfl
  have before : Reaches Starts RxAccount.step (fun _ _ => True) oneByteHeld :=
    oneByteHeld_reached (fun _ => trivial) fun _ => trivial
  refine ⟨⟨[⟨0, .client, [75], false⟩], 2, 1, 0, true⟩, ?_, rfl, rfl⟩
  rw [← lost]
  exact before.step trivial

end

end Kynovo.Server.RxAccount
