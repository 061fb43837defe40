import Kynovo.Wal.Record

/-! The frame layer both connections share: a twelve byte header in front of
every payload, and the receive buffer that cuts a byte stream back into frames.
The buffer is the run of bytes received but not yet delivered; its allocated
capacity has no influence on the outcome and is left out. -/
namespace Kynovo.Proto.Framing
open Kynovo.Lib.LittleEndian

def frameHeader : Nat := 12
def frameMax : Nat := 1048576
def clientMagic : UInt32 := 0x314c434b
def peerMagic : UInt32 := 0x3152504b
def wireVersion : Nat := 1
def peerWireVersion : Nat := 3

/-- Peers and clients speak different versions; the magic tells which. -/
def versionOf (magic : UInt32) : Nat :=
  if magic = peerMagic then peerWireVersion else wireVersion

def kFrameHeaderBuild (magic : UInt32) (type : UInt8) (size : Nat) : List UInt8 :=
  leBytes 4 magic.toNat ++ (leBytes 1 (versionOf magic) ++ ([type] ++
    (leBytes 2 0 ++ leBytes 4 size)))

/-- What a frame handler leaves: its own state, whether it returned zero, and
whether it closed the connection, which frees the receive buffer. -/
structure Handled (σ : Type) where
  ud : σ
  ok : Bool
  closed : Bool
deriving DecidableEq, Repr

/-- The return code of a feed (`ok` for zero) with the buffer and the handler's
state as they are then. -/
structure Fed (σ : Type) where
  ok : Bool
  rx : List UInt8
  ud : σ
deriving DecidableEq, Repr

/-- The buffer never holds more than one whole frame. -/
def kRxAppend (rx data : List UInt8) : Option (List UInt8) :=
  if data.length > frameMax + frameHeader - rx.length then none else some (rx ++ data)

/-- The header fields at the front of the buffer. -/
def readMagic (rx : List UInt8) : Nat := leNat (rx.take 4)
def readVersion (rx : List UInt8) : Nat := leNat ((rx.drop 4).take 1)
def readType (rx : List UInt8) : UInt8 := (rx.drop 5).headD 0
def readReserved (rx : List UInt8) : Nat := leNat ((rx.drop 6).take 2)
def readSize (rx : List UInt8) : Nat := leNat ((rx.drop 8).take 4)

section
variable {σ : Type} (magic : UInt32) (fn : σ → UInt8 → List UInt8 → Handled σ)

/-- The delivery loop of `k_rx_feed`. -/
def deliver (rx : List UInt8) (ud : σ) : Fed σ :=
  if rx.length < frameHeader then ⟨true, rx, ud⟩
  else if readMagic rx ≠ magic.toNat ∨ readVersion rx ≠ versionOf magic ∨ readReserved rx ≠ 0 then
    ⟨false, rx, ud⟩
  else if readSize rx > frameMax then ⟨false, rx, ud⟩
  else if rx.length < frameHeader + readSize rx then ⟨true, rx, ud⟩
  else
    let handled := fn ud (readType rx) ((rx.drop frameHeader).take (readSize rx))
    if !handled.ok then ⟨false, if handled.closed then [] else rx, handled.ud⟩
    else if handled.closed then ⟨false, [], handled.ud⟩
    else deliver (rx.drop (frameHeader + readSize rx)) handled.ud
termination_by rx.length
decreasing_by
  simp only [List.length_drop, frameHeader] at *
  omega

def kRxFeed (rx data : List UInt8) (ud : σ) : Fed σ :=
  match kRxAppend rx data with
  | none => ⟨false, rx, ud⟩
  | some rx => deliver magic fn rx ud

/-- A connection feeds every chunk it receives and is closed on the first error. -/
def feedAll : List (List UInt8) → List UInt8 → σ → Fed σ
  | [], rx, ud => ⟨true, rx, ud⟩
  | chunk :: chunks, rx, ud =>
    let fed := kRxFeed magic fn rx chunk ud
    if fed.ok then feedAll chunks fed.rx fed.ud else fed

end

/-! ## Streams of frames -/

structure Frame where
  type : UInt8
  payload : List UInt8
deriving DecidableEq, Repr

def Frame.size (frame : Frame) : Nat := frameHeader + frame.payload.length

def frameBytes (magic : UInt32) (frame : Frame) : List UInt8 :=
  kFrameHeaderBuild magic frame.type frame.payload.length ++ frame.payload

def streamBytes (magic : UInt32) (frames : List Frame) : List UInt8 :=
  frames.flatMap (frameBytes magic)

/-- The handler that accepts every frame and keeps it. -/
def collect (seen : List Frame) (type : UInt8) (payload : List UInt8) : Handled (List Frame) :=
  ⟨seen ++ [⟨type, payload⟩], true, false⟩

/-- How many of the first `offset` bytes of a stream belong to a frame that is
not complete there. -/
def carried : List Frame → Nat → Nat
  | [], offset => offset
  | frame :: frames, offset =>
    if offset < frame.size then offset else carried frames (offset - frame.size)

/-- Every chunk fits the buffer together with the incomplete frame in front of
it. -/
def ChunksFit (frames : List Frame) : Nat → List (List UInt8) → Prop
  | _, [] => True
  | offset, chunk :: chunks =>
    carried frames offset + chunk.length ≤ frameMax + frameHeader ∧
      ChunksFit frames (offset + chunk.length) chunks

/-- The buffer is shorter than the frame it is the beginning of. -/
def Short (rx : List UInt8) : List Frame → Prop
  | [] => rx = []
  | frame :: _ => rx.length < frame.size

section
variable {magic : UInt32} {frame : Frame} {frames : List Frame} {rx rest : List UInt8}

theorem kFrameHeaderBuild_length (type : UInt8) (size : Nat) :
    (kFrameHeaderBuild magic type size).length = frameHeader := by
  simp [kFrameHeaderBuild, frameHeader]

@[simp] theorem frameBytes_length : (frameBytes magic frame).length = frame.size := by
  simp [frameBytes, kFrameHeaderBuild_length, Frame.size]

theorem frame_size_pos : 0 < frame.size := by
  simp [Frame.size, frameHeader]

/-- The header is readable once twelve bytes of the frame are there. -/
theorem header_fields (fits : frame.payload.length ≤ frameMax)
    (body : List UInt8)
    (buffer : rx = kFrameHeaderBuild magic frame.type frame.payload.length ++ body) :
    readMagic rx = magic.toNat ∧ readVersion rx = versionOf magic ∧ readReserved rx = 0 ∧
      readType rx = frame.type ∧ readSize rx = frame.payload.length := by
  have small : frame.payload.length < 256 ^ 4 := by
    have bound : frameMax < 256 ^ 4 := by decide
    omega
  have version : versionOf magic < 256 ^ 1 := by
    unfold versionOf
    split <;> decide
  subst buffer
  refine ⟨?_, ?_, rfl, rfl, ?_⟩
  · have wide : magic.toNat < 256 ^ 4 := magic.toNat_lt
    exact leNat_leBytes_of_lt wide
  · exact leNat_leBytes_of_lt version
  · exact leNat_leBytes_of_lt small

/-- A complete frame at the front of the buffer is handed over and removed. -/
theorem deliver_frame {σ : Type} {fn : σ → UInt8 → List UInt8 → Handled σ} {ud ud' : σ}
    (fits : frame.payload.length ≤ frameMax)
    (accepts : fn ud frame.type frame.payload = ⟨ud', true, false⟩) (rest : List UInt8) :
    deliver magic fn (frameBytes magic frame ++ rest) ud = deliver magic fn rest ud' := by
  have buffer : frameBytes magic frame ++ rest =
      kFrameHeaderBuild magic frame.type frame.payload.length ++ (frame.payload ++ rest) := by
    rw [frameBytes, List.append_assoc]
  obtain ⟨magicOk, versionOk, reservedOk, type, size⟩ := header_fields fits _ buffer
  have payload : ((frameBytes magic frame ++ rest).drop frameHeader).take frame.payload.length =
      frame.payload := by
    rw [buffer, List.drop_left' (kFrameHeaderBuild_length _ _), List.take_left]
  have after : (frameBytes magic frame ++ rest).drop (frameHeader + frame.payload.length) = rest :=
    List.drop_left' frameBytes_length
  have whole : (frameBytes magic frame ++ rest).length =
      frameHeader + frame.payload.length + rest.length := by
    rw [List.length_append, frameBytes_length, Frame.size]
  rw [deliver, if_neg (by omega), if_neg (by simp [magicOk, versionOk, reservedOk]),
    if_neg (by omega), if_neg (by omega)]
  simp only [size, type, payload, accepts, after]
  simp

/-- A buffer that holds less than the frame it begins waits for more. -/
theorem deliver_short {σ : Type} {fn : σ → UInt8 → List UInt8 → Handled σ}
    (fits : frame.payload.length ≤ frameMax) (less : rx.length < frame.size)
    (starts : rx <+: frameBytes magic frame ++ rest) (ud : σ) :
    deliver magic fn rx ud = ⟨true, rx, ud⟩ := by
  rw [deliver]
  by_cases enough : rx.length < frameHeader
  · rw [if_pos enough]
  · obtain ⟨tail, split⟩ := starts
    have header : kFrameHeaderBuild magic frame.type frame.payload.length <+: rx := by
      refine List.prefix_of_prefix_length_le ⟨frame.payload ++ rest, ?_⟩ ⟨tail, split⟩ ?_
      · rw [frameBytes, List.append_assoc]
      · rw [kFrameHeaderBuild_length]
        omega
    obtain ⟨body, buffer⟩ := header
    obtain ⟨magicOk, versionOk, reservedOk, -, size⟩ := header_fields fits body buffer.symm
    rw [if_neg enough, if_neg (by simp [magicOk, versionOk, reservedOk]), if_neg (by omega),
      if_pos (by rw [size]; exact less)]

end

/-! ## Reassembly -/

section
variable {magic : UInt32} {frames : List Frame} {rx rest : List UInt8}

theorem streamBytes_cons (frame : Frame) :
    streamBytes magic (frame :: frames) = frameBytes magic frame ++ streamBytes magic frames :=
  List.flatMap_cons

theorem carried_short (short : Short rx frames) : carried frames rx.length = rx.length := by
  cases frames with
  | nil => rfl
  | cons frame frames => exact if_pos short

/-- An incomplete frame fits the buffer. -/
theorem short_length (fits : ∀ frame ∈ frames, frame.payload.length ≤ frameMax)
    (short : Short rx frames) : rx.length ≤ frameMax + frameHeader := by
  cases frames with
  | nil => simp [show rx = [] from short]
  | cons frame frames =>
    have less : rx.length < frame.size := short
    have small := fits frame List.mem_cons_self
    rw [Frame.size] at less
    omega

theorem carried_behind (done : List Frame) (offset : Nat) :
    carried (done ++ frames) ((streamBytes magic done).length + offset) = carried frames offset := by
  induction done with
  | nil => simp [streamBytes]
  | cons frame done ih =>
    have size : (streamBytes magic (frame :: done)).length =
        frame.size + (streamBytes magic done).length := by
      rw [streamBytes_cons, List.length_append, frameBytes_length]
    rw [List.cons_append, carried, if_neg (by omega), size, ← ih]
    congr 1
    omega

/-- What the delivery loop makes of a buffer that starts a stream of frames: it
hands over the complete ones and keeps the beginning of the next. -/
theorem deliver_stream (fits : ∀ frame ∈ frames, frame.payload.length ≤ frameMax)
    (stream : rx ++ rest = streamBytes magic frames) (seen : List Frame) :
    ∃ done left kept, frames = done ++ left ∧ rx = streamBytes magic done ++ kept ∧
      kept ++ rest = streamBytes magic left ∧ Short kept left ∧
      deliver magic collect rx seen = ⟨true, kept, seen ++ done⟩ := by
  induction frames generalizing rx seen with
  | nil =>
    obtain ⟨rfl, rfl⟩ := List.append_eq_nil_iff.mp stream
    refine ⟨[], [], [], rfl, rfl, rfl, rfl, ?_⟩
    rw [deliver, if_pos (by decide), List.append_nil]
  | cons frame frames ih =>
    rw [streamBytes_cons] at stream
    have frameFits := fits frame List.mem_cons_self
    by_cases short : rx.length < frame.size
    · refine ⟨[], frame :: frames, rx, rfl, rfl, ?_, short, ?_⟩
      · rw [streamBytes_cons, stream]
      · rw [List.append_nil]
        exact deliver_short frameFits short ⟨rest, stream⟩ seen
    · have head : frameBytes magic frame <+: rx := by
        apply List.prefix_of_prefix_length_le ⟨_, stream.symm⟩ ⟨rest, rfl⟩
        rw [frameBytes_length]
        omega
      obtain ⟨tail, rfl⟩ := head
      rw [List.append_assoc] at stream
      obtain ⟨done, left, kept, split, bytes, remains, shortKept, delivered⟩ :=
        ih (fun other member => fits other (List.mem_cons_of_mem _ member))
          (List.append_cancel_left stream) (seen ++ [frame])
      refine ⟨frame :: done, left, kept, by rw [split]; rfl, ?_, remains, shortKept, ?_⟩
      · rw [bytes, streamBytes_cons, List.append_assoc]
      · rw [deliver_frame frameFits rfl, delivered, List.append_assoc]
        rfl

/-- A chunk that fits beside the incomplete frame is delivered; one that does
not is an error. -/
theorem kRxFeed_stream (fits : ∀ frame ∈ frames, frame.payload.length ≤ frameMax)
    {chunk : List UInt8} (stream : rx ++ (chunk ++ rest) = streamBytes magic frames)
    (room : rx.length + chunk.length ≤ frameMax + frameHeader) (seen : List Frame) :
    ∃ done left kept, frames = done ++ left ∧ rx ++ chunk = streamBytes magic done ++ kept ∧
      kept ++ rest = streamBytes magic left ∧ Short kept left ∧
      kRxFeed magic collect rx chunk seen = ⟨true, kept, seen ++ done⟩ := by
  rw [← List.append_assoc] at stream
  obtain ⟨done, left, kept, split, bytes, remains, short, delivered⟩ :=
    deliver_stream fits stream seen
  refine ⟨done, left, kept, split, bytes, remains, short, ?_⟩
  rw [kRxFeed, kRxAppend, if_neg (by omega)]
  exact delivered

theorem kRxFeed_full {σ : Type} {fn : σ → UInt8 → List UInt8 → Handled σ} {chunk : List UInt8}
    (held : rx.length ≤ frameMax + frameHeader)
    (full : ¬ rx.length + chunk.length ≤ frameMax + frameHeader) (ud : σ) :
    kRxFeed magic fn rx chunk ud = ⟨false, rx, ud⟩ := by
  rw [kRxFeed, kRxAppend, if_pos (by omega)]

/-- The offsets of the remaining chunks count from the first frame that is not
yet delivered. -/
theorem chunksFit_behind (done : List Frame) (offset : Nat) (chunks : List (List UInt8)) :
    ChunksFit (done ++ frames) ((streamBytes magic done).length + offset) chunks ↔
      ChunksFit frames offset chunks := by
  induction chunks generalizing offset with
  | nil => rfl
  | cons chunk chunks ih => rw [ChunksFit, ChunksFit, carried_behind, Nat.add_assoc, ih]

/-- From any point of the stream on: the chunks that fit are all delivered, and
the first that does not ends the connection. -/
theorem feedAll_stream (fits : ∀ frame ∈ frames, frame.payload.length ≤ frameMax)
    {chunks : List (List UInt8)} (stream : rx ++ chunks.flatten = streamBytes magic frames)
    (short : Short rx frames) (seen : List Frame) :
    (ChunksFit frames rx.length chunks →
      feedAll magic collect chunks rx seen = ⟨true, [], seen ++ frames⟩) ∧
    (¬ ChunksFit frames rx.length chunks →
      (feedAll magic collect chunks rx seen).ok = false) := by
  induction chunks generalizing frames rx seen with
  | nil =>
    have ended : rx = [] ∧ frames = [] := by
      cases frames with
      | nil => exact ⟨short, rfl⟩
      | cons frame frames =>
        have length := congrArg List.length stream
        simp only [List.flatten_nil, List.append_nil, streamBytes_cons, List.length_append,
          frameBytes_length] at length
        have less : rx.length < frame.size := short
        omega
    obtain ⟨rfl, rfl⟩ := ended
    simp [feedAll, ChunksFit]
  | cons chunk chunks ih =>
    rw [ChunksFit, carried_short short]
    by_cases room : rx.length + chunk.length ≤ frameMax + frameHeader
    · obtain ⟨done, left, kept, rfl, bytes, remains, shortKept, fed⟩ :=
        kRxFeed_stream fits stream room seen
      have later := ih (fun frame member => fits frame (List.mem_append_right _ member))
        remains shortKept (seen ++ done)
      have offset : rx.length + chunk.length = (streamBytes magic done).length + kept.length := by
        rw [← List.length_append, bytes, List.length_append]
      rw [List.append_assoc] at later
      rw [and_iff_right room, offset, chunksFit_behind, feedAll, fed]
      exact later
    · have held := short_length fits short
      simp [feedAll, kRxFeed_full held room, room]

end

/-- A connection that receives a stream of valid frames in chunks reports no
error and delivers exactly these frames if and only if no chunk overflows the
buffer that already holds the beginning of a frame. -/
theorem feedAll_delivers_iff (magic : UInt32) (frames : List Frame) (chunks : List (List UInt8))
    (fits : ∀ frame ∈ frames, frame.payload.length ≤ frameMax)
    (cut : chunks.flatten = streamBytes magic frames) :
    feedAll magic collect chunks [] [] = ⟨true, [], frames⟩ ↔ ChunksFit frames 0 chunks := by
  have short : Short [] frames := by
    cases frames with
    | nil => rfl
    | cons frame frames => exact frame_size_pos
  obtain ⟨delivers, refuses⟩ := feedAll_stream fits cut short []
  constructor
  · intro all
    by_contra misfit
    have error := refuses misfit
    rw [all] at error
    cases error
  · exact delivers

/-- A short frame whose header arrives in two parts, with another behind it. -/
theorem split_header_delivered :
    feedAll clientMagic collect
      [[0x4b, 0x43, 0x4c], [0x31, 1, 100, 0, 0, 1, 0, 0, 0, 7, 0x4b],
        [0x43, 0x4c, 0x31, 1, 100, 0, 0, 0, 0, 0, 0]] [] [] =
      ⟨true, [], [⟨100, [7]⟩, ⟨100, []⟩]⟩ := by
  apply (feedAll_delivers_iff clientMagic [⟨100, [7]⟩, ⟨100, []⟩] _ (by decide) (by decide)).mpr
  refine ⟨?_, ?_, ?_, trivial⟩ <;> decide

theorem replicate_size (type byte : UInt8) (count : Nat) :
    (⟨type, List.replicate count byte⟩ : Frame).size = frameHeader + count := by
  rw [Frame.size, List.length_replicate]

/-- The largest frame and an empty one behind it. -/
def largest : Frame := ⟨100, List.replicate frameMax 0⟩
def pipelined : List Frame := [largest, ⟨100, []⟩]

theorem largest_size : largest.size = frameHeader + frameMax := replicate_size 100 0 frameMax

theorem pipelined_length :
    (streamBytes clientMagic pipelined).length = frameHeader + frameMax + frameHeader := by
  rw [pipelined, streamBytes_cons, streamBytes_cons, List.length_append, List.length_append,
    frameBytes_length, frameBytes_length, largest_size]
  simp [streamBytes, Frame.size]

/-- All of the largest frame but its last byte is received, then a chunk of that
byte and the frame behind it. -/
theorem largest_frame_refuses_next :
    ((streamBytes clientMagic pipelined).take (frameMax + 11) ≠ [] ∧
      (streamBytes clientMagic pipelined).drop (frameMax + 11) ≠ []) ∧
    (∀ frame ∈ pipelined, frame.payload.length ≤ frameMax) ∧
    (feedAll clientMagic collect [(streamBytes clientMagic pipelined).take (frameMax + 11),
      (streamBytes clientMagic pipelined).drop (frameMax + 11)] [] []).ok = false := by
  have fits : ∀ frame ∈ pipelined, frame.payload.length ≤ frameMax := by
    intro frame member
    rcases List.mem_pair.mp member with rfl | rfl
    · rw [largest, List.length_replicate]
    · exact Nat.zero_le _
  have cut : ([] : List UInt8) ++ [(streamBytes clientMagic pipelined).take (frameMax + 11),
      (streamBytes clientMagic pipelined).drop (frameMax + 11)].flatten =
      streamBytes clientMagic pipelined := by
    rw [List.nil_append, List.flatten_cons, List.flatten_singleton, List.take_append_drop]
  have header : frameHeader = 12 := rfl
  have length := pipelined_length
  refine ⟨⟨?_, ?_⟩, fits, ?_⟩
  · apply List.ne_nil_of_length_pos
    rw [List.length_take]
    omega
  · apply List.ne_nil_of_length_pos
    rw [List.length_drop]
    omega
  · apply (feedAll_stream fits cut frame_size_pos []).2
    rintro ⟨-, second, -⟩
    have waiting : carried pipelined (frameMax + 11) = frameMax + 11 := by
      rw [pipelined, carried, if_pos (by rw [largest_size]; omega)]
    have taken : ((streamBytes clientMagic pipelined).take (frameMax + 11)).length =
        frameMax + 11 := by
      rw [List.length_take]
      omega
    rw [List.length_nil, Nat.zero_add, taken, waiting, List.length_drop] at second
    omega

end Kynovo.Proto.Framing
