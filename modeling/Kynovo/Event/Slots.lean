import Mathlib.Data.List.Nodup
import Mathlib.Data.List.Basic
import Mathlib.Logic.Relation

/-! The slots that tell an event loop which socket an event is for. The poller hands
back a key of a slot and its generation. A slot is used again when its socket is
closed, under the next generation, so an event that was queued for the closed socket
finds no socket. -/
namespace Kynovo.Event.Slots

/-- `sock` is 0 while no socket has the slot; `nextFree` is below 0 at the end. -/
structure UnixSlot where
  sock : Nat
  gen : Nat
  nextFree : Int
deriving DecidableEq

structure Socket where
  unixSlot : Int
  unixGen : Nat
deriving DecidableEq

/-- The capacity is the number of slots. A socket is an address other than 0;
`opened` is how many were ever allocated. -/
structure Loop where
  unixSlots : List UnixSlot
  unixSlotFree : Int
  sockets : Nat → Option Socket
  opened : Nat

def slotBase : Nat := 64

def u32 (n : Nat) : Nat := n % 0x100000000

def Loop.putSlot (loop : Loop) (idx : Nat) (slot : UnixSlot) : Loop :=
  { loop with unixSlots := loop.unixSlots.set idx slot }

def Loop.putSocket (loop : Loop) (sock : Nat) (socket : Socket) : Loop :=
  { loop with sockets := fun other => if other = sock then some socket else loop.sockets other }

/-- Slots for new indexes, each before the next one; the last leads to what was free. -/
def newSlots (first count : Nat) (free : Int) : List UnixSlot :=
  (List.range count).map (fun k =>
    ⟨0, 0, if k + 1 < count then ((first + k + 1 : Nat) : Int) else free⟩)

/-- `room` is whether memory for more slots is given. -/
def unixSlotGrow (loop : Loop) (room : Bool) : Option Loop :=
  if room then
    let oldCap := loop.unixSlots.length
    let cap := if oldCap ≠ 0 then oldCap * 2 else slotBase
    some { loop with
      unixSlots := loop.unixSlots ++ newSlots oldCap (cap - oldCap) loop.unixSlotFree
      unixSlotFree := oldCap }
  else none

/-- `none`: no slot could be had. -/
def unixSlotAlloc (loop : Loop) (sock : Nat) (room : Bool) : Option Loop :=
  let grown := if loop.unixSlotFree < 0 then unixSlotGrow loop room else some loop
  grown.bind (fun loop =>
    let idx := loop.unixSlotFree
    if idx < 0 then none
    else
      match loop.unixSlots[idx.toNat]? with
      | none => none
      | some slot =>
        let next := u32 (slot.gen + 1)
        let gen := if next = 0 then 1 else next
        some (({ loop with unixSlotFree := slot.nextFree }.putSlot idx.toNat ⟨sock, gen, -1⟩).putSocket
          sock ⟨idx, gen⟩))

def unixSlotRelease (loop : Loop) (sock : Nat) : Loop :=
  match loop.sockets sock with
  | none => loop
  | some socket =>
    if socket.unixSlot < 0 then loop
    else
      match loop.unixSlots[socket.unixSlot.toNat]? with
      | none => loop.putSocket sock ⟨-1, 0⟩
      | some slot =>
        let held := if slot.sock = sock && slot.gen = socket.unixGen then 0 else slot.sock
        ({ loop with unixSlotFree := socket.unixSlot }.putSlot socket.unixSlot.toNat
          ⟨held, slot.gen, loop.unixSlotFree⟩).putSocket sock ⟨-1, 0⟩

/-- 0 when the socket has no slot. The halves of the key do not meet. -/
def unixCookie (socket : Socket) : Nat :=
  if socket.unixSlot < 0 || socket.unixGen = 0 then 0
  else socket.unixGen * 0x100000000 + u32 (socket.unixSlot.toNat + 1)

/-- The socket an event is for, or 0. -/
def unixEventSock (loop : Loop) (key : Nat) : Nat :=
  if key = 0 then 0
  else
    let idx := u32 key
    -- as a signed integer it is not above 0
    if idx = 0 || 0x80000000 ≤ idx then 0
    else
      match loop.unixSlots[idx - 1]? with
      | none => 0
      | some slot => if slot.gen = key / 0x100000000 then slot.sock else 0

/-! ## Runs -/

/-- A socket is created, or a socket dies; one that is dead may be released again. -/
inductive Op where
  | create (room : Bool)
  | die (sock : Nat)
deriving DecidableEq

/-- `issued` is every key a socket was registered under. -/
structure Run where
  loop : Loop
  issued : List (Nat × Nat)

def Run.step (run : Run) : Op → Run
  | .create room =>
    let sock := run.loop.opened + 1
    let fresh := { run.loop with opened := sock }
    match unixSlotAlloc (fresh.putSocket sock ⟨-1, 0⟩) sock room with
    | none => { run with loop := fresh }
    | some loop =>
      { loop, issued := run.issued ++
          [(sock, ((loop.sockets sock).map unixCookie).getD 0)] }
  | .die sock => { run with loop := unixSlotRelease run.loop sock }

def Run.start : Run := ⟨⟨[], -1, fun _ => none, 0⟩, []⟩

def Run.steps (run : Run) (ops : List Op) : Run := ops.foldl Run.step run

/-- The socket is not dead. -/
def Loop.alive (loop : Loop) (sock : Nat) : Prop :=
  ∃ socket, loop.sockets sock = some socket ∧ 0 ≤ socket.unixSlot

end Kynovo.Event.Slots
