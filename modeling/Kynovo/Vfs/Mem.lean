import Mathlib.Algebra.Group.Nat.Defs
import Mathlib.Logic.Function.Basic
import Kynovo.Lib.BucketTable

/-! The in-memory file system: inodes behind a hash table of paths, each a sparse table of
blocks, and handles that count as references. Memory never runs out. -/
namespace Kynovo.Vfs.Mem
open Kynovo.Lib.BucketTable

def hashBuckets : Nat := 1024
def blockSize : Nat := 65536
def blockBucketsInit : Nat := 256

/-- `(size_t)-1`. -/
def sizeMax : Nat := 2 ^ 64 - 1

/-- The bytes of a block. -/
abbrev BlockData := Nat → UInt8

/-- `vfs_mem_inode`. No bucket stands for a table that was not allocated yet. -/
structure Inode where
  path : List UInt8
  logicalSize : Nat
  blocks : Buckets BlockData
  nblocks : Nat
  refcount : Int
  linked : Bool

/-! ## Blocks -/

def vfsMemFindBlock (n : Inode) (id : Nat) : Option (Cell BlockData) :=
  if n.blocks = [] then none else find n.blocks id

/-- The table of a file gets its first buckets with its first block. -/
def withBuckets (n : Inode) : Inode :=
  if n.blocks = [] then { n with blocks := List.replicate blockBucketsInit [] } else n

/-- The file after the block was looked up, and made if it was not there. -/
def vfsMemGetBlock (n : Inode) (id : Nat) : Inode :=
  let n := withBuckets n
  match find n.blocks id with
  | some _ => n
  | none =>
    let n := { n with
      blocks := push n.blocks ⟨id, fun _ => 0⟩
      nblocks := n.nblocks + 1 }
    if n.nblocks > n.blocks.length * 2 ∧ n.blocks.length < sizeMax / 2 then
      { n with blocks := rehash n.blocks (n.blocks.length * 2) }
    else n

/-! ## Reading and writing -/

/-- The part of a range that lies in the block of its first byte. -/
def chunkOf (offset size : Nat) : Nat := min (blockSize - offset % blockSize) size

/-- `memcpy` into a block. -/
def copyInto (at_ : Nat) (src : List UInt8) (data : BlockData) : BlockData :=
  fun i => if at_ ≤ i ∧ i < at_ + src.length then src.getD (i - at_) 0 else data i

/-- A chunk copied into the block it lies in. -/
def writeChunk (n : Inode) (offset : Nat) (part : List UInt8) : Inode :=
  let n := vfsMemGetBlock n (offset / blockSize)
  { n with
    blocks := update n.blocks (offset / blockSize) (copyInto (offset % blockSize) part) }

/-- The loop of `vfs_mem_write`. -/
def writeBlocks (n : Inode) (offset : Nat) (src : List UInt8) : Inode :=
  if src = [] then n
  else
    let chunk := chunkOf offset src.length
    writeBlocks (writeChunk n offset (src.take chunk)) (offset + chunk) (src.drop chunk)
termination_by src.length
decreasing_by
  have positive : 0 < src.length := List.length_pos_iff.mpr ‹_›
  have inside : offset % blockSize < blockSize := Nat.mod_lt _ (by decide)
  rw [List.length_drop, chunkOf]
  omega

/-- `none` when the end of the range reaches 2^64. -/
def vfsMemWrite (n : Inode) (offset : UInt64) (src : List UInt8) : Option Inode :=
  if src = [] then some n
  else
    let last := (offset.toNat + src.length) % 2 ^ 64
    if last < offset.toNat then none
    else
      let written := writeBlocks n offset.toNat src
      some { written with logicalSize := if last > written.logicalSize then last else written.logicalSize }

/-- The loop of `vfs_mem_read`. -/
def readBlocks (n : Inode) (offset size : Nat) : List UInt8 :=
  if size = 0 then []
  else
    let chunk := chunkOf offset size
    let bytes := match vfsMemFindBlock n (offset / blockSize) with
      | some block => (List.range chunk).map fun i => block.value (offset % blockSize + i)
      | none => List.replicate chunk 0
    bytes ++ readBlocks n (offset + chunk) (size - chunk)
termination_by size
decreasing_by
  have inside : offset % blockSize < blockSize := Nat.mod_lt _ (by decide)
  rw [chunkOf]
  omega

def vfsMemRead (n : Inode) (offset : UInt64) (size : UInt32) : Option (List UInt8) :=
  if size = 0 then some []
  else if offset.toNat > n.logicalSize ∨ size.toNat > n.logicalSize - offset.toNat then none
  else some (readBlocks n offset.toNat size.toNat)

/-! ## Paths and handles -/

/-- `vfs_hash`. -/
def vfsHash (path : List UInt8) : UInt32 :=
  let h := path.foldl (fun h byte => (h ^^^ byte.toUInt32) * 16777619) 2166136261
  let h := h ^^^ h >>> 16
  let h := h * 0x85ebca6b
  let h := h ^^^ h >>> 13
  let h := h * 0xc2b2ae35
  h ^^^ h >>> 16

/-- The bucket of a path. -/
def slotOf (path : List UInt8) : Nat := (vfsHash path).toNat % hashBuckets

/-- `vfs_mem_ctx` with the inodes and files it leads to. Inodes and handles are numbered as
they are allocated. -/
structure Fs where
  buckets : Nat → List Nat
  inodes : Nat → Option Inode
  handles : Nat → Option Nat
  nextInode : Nat
  nextHandle : Nat

def Fs.empty : Fs :=
  { buckets := fun _ => [], inodes := fun _ => none, handles := fun _ => none
    nextInode := 0, nextHandle := 0 }

def Fs.put (fs : Fs) (i : Nat) (n : Inode) : Fs :=
  { fs with inodes := Function.update fs.inodes i (some n) }

/-- `VFS_FREE` of an inode and its blocks. -/
def Fs.free (fs : Fs) (i : Nat) : Fs := { fs with inodes := Function.update fs.inodes i none }

/-- An inode with a path. -/
def Fs.named (fs : Fs) (path : List UInt8) (i : Nat) : Bool :=
  (fs.inodes i).any fun n => n.path = path

/-- The inode a path is linked to, made if there is none. -/
def openInode (fs : Fs) (path : List UInt8) : Fs × Nat :=
  match (fs.buckets (slotOf path)).find? fun i =>
    (fs.inodes i).any fun n => n.linked && n.path = path with
  | some i => (fs, i)
  | none =>
    let made : Inode := { path, logicalSize := 0, blocks := [], nblocks := 0, refcount := 0,
                          linked := true }
    ({ fs.put fs.nextInode made with
        buckets := Function.update fs.buckets (slotOf path)
          (fs.nextInode :: fs.buckets (slotOf path))
        nextInode := fs.nextInode + 1 }, fs.nextInode)

/-- The new handle with the file system. -/
def vfsMemOpen (fs : Fs) (path : List UInt8) : Fs × Nat :=
  let (fs, i) := openInode fs path
  match fs.inodes i with
  | none => (fs, fs.nextHandle)
  | some n =>
    ({ fs.put i { n with refcount := n.refcount + 1 } with
        handles := Function.update fs.handles fs.nextHandle (some i)
        nextHandle := fs.nextHandle + 1 }, fs.nextHandle)

/-- The first inode of the bucket with the path leaves it. -/
def vfsMemUnlink (fs : Fs) (path : List UInt8) : Option Fs :=
  match (fs.buckets (slotOf path)).find? (fs.named path) with
  | none => none
  | some i =>
    match fs.inodes i with
    | none => none
    | some n =>
      let fs := { fs with
        buckets := Function.update fs.buckets (slotOf path)
          ((fs.buckets (slotOf path)).eraseP (fs.named path)) }
      some (if n.refcount = 0 then fs.free i else fs.put i { n with linked := false })

def vfsMemClose (fs : Fs) (h i : Nat) (n : Inode) : Fs :=
  let fs := { fs with handles := Function.update fs.handles h none }
  let n := { n with refcount := n.refcount - 1 }
  if n.refcount = 0 ∧ n.linked = false then fs.free i else fs.put i n

/-! ## Calls -/

/-- `VFS_MAX_OFFSET`. -/
def maxOffset : Nat := 0x7fffffffffffffff

/-- A call on the file system. A path is what follows the name of the backend, a handle is one
that an open returned, and there is a buffer. -/
inductive Call where
  | open_ (path : List UInt8)
  | unlink (path : List UInt8)
  | read (h : Nat) (offset : UInt64) (size : UInt32)
  | write (h : Nat) (offset : UInt64) (src : List UInt8) (fits : src.length < 2 ^ 32)
  | close (h : Nat)

/-- What a call returns. `stale` stands for the use of a handle that is not open, which no
caller may make. -/
inductive Answer where
  | handle (h : Nat)
  | ok
  | failed
  | bytes (data : List UInt8)
  | stale
deriving DecidableEq

/-- The inode an open handle refers to. -/
def Fs.file (fs : Fs) (h : Nat) : Option (Nat × Inode) :=
  (fs.handles h).bind fun i => (fs.inodes i).map fun n => (i, n)

/-- What `vfs_open`, `vfs_unlink`, `vfs_read` and `vfs_write` ask before they hand a call to the
backend. -/
def Call.passes : Call → Bool
  | .open_ path | .unlink path => path ≠ []
  | .read _ offset _ | .write _ offset _ _ => offset.toNat ≤ maxOffset
  | .close _ => true

/-- The calls as the backend answers them. -/
def Fs.backend (fs : Fs) : Call → Fs × Answer
  | .open_ path => ((vfsMemOpen fs path).1, .handle (vfsMemOpen fs path).2)
  | .unlink path =>
    match vfsMemUnlink fs path with
    | some after => (after, .ok)
    | none => (fs, .failed)
  | .read h offset size =>
    match fs.file h with
    | none => (fs, .stale)
    | some (_, n) =>
      match vfsMemRead n offset size with
      | some data => (fs, .bytes data)
      | none => (fs, .failed)
  | .write h offset src _ =>
    match fs.file h with
    | none => (fs, .stale)
    | some (i, n) =>
      match vfsMemWrite n offset src with
      | some after => (fs.put i after, .ok)
      | none => (fs, .failed)
  | .close h =>
    match fs.file h with
    | none => (fs, .stale)
    | some (i, n) => (vfsMemClose fs h i n, .ok)

def Fs.call (fs : Fs) (c : Call) : Fs × Answer :=
  if c.passes then fs.backend c else (fs, .failed)

/-- The answers to a sequence of calls. -/
def answers {State : Type} (call : State → Call → State × Answer) : State → List Call → List Answer
  | _, [] => []
  | state, c :: rest => (call state c).2 :: answers call (call state c).1 rest

/-- States that stay in a relation under each call, and answer it alike, answer every sequence
alike. -/
theorem answers_eq {State State' : Type} {call : State → Call → State × Answer}
    {call' : State' → Call → State' × Answer} (related : State → State' → Prop)
    (onward : ∀ state state' c, related state state' →
      (call state c).2 = (call' state' c).2 ∧ related (call state c).1 (call' state' c).1)
    (calls : List Call) {state : State} {state' : State'} (now : related state state') :
    answers call state calls = answers call' state' calls := by
  induction calls generalizing state state' with
  | nil => rfl
  | cons c rest ih =>
    obtain ⟨answer, after⟩ := onward state state' c now
    rw [answers, answers, answer, ih after]

/-! ## The content of a file -/

/-- A byte of a file as its blocks hold it. -/
def content (n : Inode) (position : Nat) : UInt8 :=
  match vfsMemFindBlock n (position / blockSize) with
  | some block => block.value (position % blockSize)
  | none => 0

/-- The blocks of a file are none or a sound table. -/
def Stored (n : Inode) : Prop := n.blocks = [] ∨ Sound n.blocks

theorem withBuckets_sound {n : Inode} (stored : Stored n) :
    Sound (withBuckets n).blocks ∧ ∀ id, find (withBuckets n).blocks id = vfsMemFindBlock n id := by
  unfold withBuckets vfsMemFindBlock
  by_cases bare : n.blocks = []
  · rw [if_pos bare]
    refine ⟨sound_replicate (by decide), fun id => ?_⟩
    rw [if_pos bare, find_replicate]
  · rw [if_neg bare]
    refine ⟨stored.resolve_left bare, fun id => ?_⟩
    rw [if_neg bare]

/-- Two inodes that differ in their blocks only. -/
structure SameFile (before after : Inode) : Prop where
  logicalSize : after.logicalSize = before.logicalSize
  path : after.path = before.path
  refcount : after.refcount = before.refcount
  linked : after.linked = before.linked

theorem SameFile.trans {a b c : Inode} (first : SameFile a b) (second : SameFile b c) :
    SameFile a c where
  logicalSize := second.logicalSize.trans first.logicalSize
  path := second.path.trans first.path
  refcount := second.refcount.trans first.refcount
  linked := second.linked.trans first.linked

theorem withBuckets_same (n : Inode) : SameFile n (withBuckets n) := by
  unfold withBuckets
  split
  · exact ⟨rfl, rfl, rfl, rfl⟩
  · exact ⟨rfl, rfl, rfl, rfl⟩

theorem vfsMemGetBlock_same (n : Inode) (id : Nat) : SameFile n (vfsMemGetBlock n id) := by
  obtain ⟨size, path, refcount, linked⟩ := withBuckets_same n
  unfold vfsMemGetBlock
  dsimp only
  cases find (withBuckets n).blocks id with
  | some block => exact ⟨size, path, refcount, linked⟩
  | none =>
    dsimp only
    split
    · exact ⟨size, path, refcount, linked⟩
    · exact ⟨size, path, refcount, linked⟩

/-- After a block was asked for, its table is sound, the block is there, and it is empty if
it was made; the others are as they were. -/
theorem vfsMemGetBlock_spec {n : Inode} (stored : Stored n) (id : Nat) :
    Sound (vfsMemGetBlock n id).blocks ∧
      ∀ other, find (vfsMemGetBlock n id).blocks other =
        if other = id then some ((vfsMemFindBlock n id).getD ⟨id, fun _ => 0⟩)
        else vfsMemFindBlock n other := by
  obtain ⟨sound, same⟩ := withBuckets_sound stored
  unfold vfsMemGetBlock
  dsimp only
  cases found : find (withBuckets n).blocks id with
  | some block =>
    refine ⟨sound, fun other => ?_⟩
    rw [same] at found ⊢
    by_cases here : other = id
    · simp [here, found]
    · simp [here]
  | none =>
    have pushed := sound.push (show find (withBuckets n).blocks
      (⟨id, fun _ => 0⟩ : Cell BlockData).id = none from found)
    have looked (other : Nat) : find (push (withBuckets n).blocks ⟨id, fun _ => 0⟩) other =
        if other = id then some ((vfsMemFindBlock n id).getD ⟨id, fun _ => 0⟩)
        else vfsMemFindBlock n other := by
      rw [find_push _ _ sound.positive, same]
      rw [same] at found
      by_cases here : other = id
      · simp [here, found]
      · simp [here, Ne.symm here]
    dsimp only
    split
    · have wider : 0 < (push (withBuckets n).blocks (⟨id, fun _ => 0⟩ : Cell BlockData)).length * 2 := by
        have positive := pushed.positive
        omega
      obtain ⟨soundAll, kept⟩ := pushed.rehash wider
      refine ⟨soundAll, fun other => ?_⟩
      rw [kept, looked]
    · exact ⟨pushed, looked⟩

theorem findBlock_of_sound {n : Inode} (sound : Sound n.blocks) (id : Nat) :
    vfsMemFindBlock n id = find n.blocks id := by
  unfold vfsMemFindBlock
  rw [if_neg]
  intro bare
  have positive := sound.positive
  rw [bare] at positive
  exact Nat.lt_irrefl 0 positive

theorem writeChunk_same (n : Inode) (offset : Nat) (part : List UInt8) :
    SameFile n (writeChunk n offset part) :=
  have same := vfsMemGetBlock_same n (offset / blockSize)
  ⟨same.logicalSize, same.path, same.refcount, same.linked⟩

/-- A chunk that fits in its block replaces its own range and nothing else. -/
theorem writeChunk_spec {n : Inode} (stored : Stored n) {offset : Nat} {part : List UInt8}
    (inside : offset % blockSize + part.length ≤ blockSize) :
    Stored (writeChunk n offset part) ∧ ∀ p, content (writeChunk n offset part) p =
      if offset ≤ p ∧ p < offset + part.length then part.getD (p - offset) 0
      else content n p := by
  obtain ⟨sound, found⟩ := vfsMemGetBlock_spec stored (offset / blockSize)
  have after : Sound (writeChunk n offset part).blocks := sound.update _ _
  refine ⟨Or.inr after, fun p => ?_⟩
  have splitP := Nat.div_add_mod p blockSize
  have splitOffset := Nat.div_add_mod offset blockSize
  have belowP : p % blockSize < blockSize := Nat.mod_lt _ (by decide)
  have looked := find_update (vfsMemGetBlock n (offset / blockSize)).blocks (offset / blockSize)
    (copyInto (offset % blockSize) part) (p / blockSize)
  rw [found, found] at looked
  unfold content
  rw [findBlock_of_sound after]
  unfold writeChunk
  dsimp only
  rw [looked]
  by_cases same : p / blockSize = offset / blockSize
  · -- the byte is in the block that the chunk lies in
    simp only [same, ↓reduceIte, Option.map_some]
    rw [same] at splitP
    have range : (offset % blockSize ≤ p % blockSize ∧
        p % blockSize < offset % blockSize + part.length) ↔
        (offset ≤ p ∧ p < offset + part.length) := by
      omega
    have shift : p % blockSize - offset % blockSize = p - offset := by omega
    unfold copyInto
    simp only [range, shift]
    split
    · rfl
    · cases vfsMemFindBlock n (offset / blockSize) with
      | none => rfl
      | some block => rfl
  · have outside : ¬ (offset ≤ p ∧ p < offset + part.length) := by
      rintro ⟨low, high⟩
      apply same
      simp only [blockSize] at inside low high ⊢
      omega
    rw [if_neg same, if_neg outside, if_neg same]

/-- The rounds of a write change exactly the range of the source. -/
theorem writeBlocks_spec {n : Inode} (stored : Stored n) (offset : Nat) (src : List UInt8) :
    SameFile n (writeBlocks n offset src) ∧ Stored (writeBlocks n offset src) ∧
      ∀ p, content (writeBlocks n offset src) p =
        if offset ≤ p ∧ p < offset + src.length then src.getD (p - offset) 0
        else content n p := by
  induction n, offset, src using writeBlocks.induct with
  | case1 n offset =>
    rw [writeBlocks, if_pos rfl]
    refine ⟨⟨rfl, rfl, rfl, rfl⟩, stored, fun p => ?_⟩
    rw [if_neg]
    rintro ⟨low, high⟩
    rw [List.length_nil] at high
    omega
  | case2 n offset src more chunk ih =>
    have below : offset % blockSize < blockSize := Nat.mod_lt _ (by decide)
    have short : chunk ≤ src.length := Nat.min_le_right _ _
    have fits : chunk ≤ blockSize - offset % blockSize := Nat.min_le_left _ _
    have taken : (src.take chunk).length = chunk := by
      rw [List.length_take]
      omega
    obtain ⟨storedChunk, changed⟩ := @writeChunk_spec n stored offset (src.take chunk)
      (by omega)
    obtain ⟨same, storedAll, rest⟩ := ih storedChunk
    rw [writeBlocks, if_neg more]
    refine ⟨(writeChunk_same n offset _).trans same, storedAll, fun p => ?_⟩
    rw [rest, changed, taken, List.length_drop]
    by_cases later : offset + chunk ≤ p ∧ p < offset + src.length
    · have inRest : offset + chunk ≤ p ∧ p < offset + chunk + (src.length - chunk) := by omega
      have inAll : offset ≤ p ∧ p < offset + src.length := by omega
      rw [if_pos inRest, if_pos inAll]
      simp only [List.getD_eq_getElem?_getD, List.getElem?_drop]
      congr 2
      omega
    · have notRest : ¬ (offset + chunk ≤ p ∧ p < offset + chunk + (src.length - chunk)) := by
        omega
      rw [if_neg notRest]
      by_cases first : offset ≤ p ∧ p < offset + chunk
      · have inAll : offset ≤ p ∧ p < offset + src.length := by omega
        rw [if_pos first, if_pos inAll]
        simp only [List.getD_eq_getElem?_getD]
        rw [List.getElem?_take_of_lt (by omega)]
      · have notAll : ¬ (offset ≤ p ∧ p < offset + src.length) := by omega
        rw [if_neg first, if_neg notAll]

/-- The rounds of a read give the bytes of the range. -/
theorem readBlocks_spec (n : Inode) (offset size : Nat) :
    readBlocks n offset size = (List.range size).map fun k => content n (offset + k) := by
  induction offset, size using readBlocks.induct n with
  | case1 offset =>
    rw [readBlocks, if_pos rfl]
    rfl
  | case2 offset size more chunk ih =>
    have below : offset % blockSize < blockSize := Nat.mod_lt _ (by decide)
    have short : chunk ≤ size := Nat.min_le_right _ _
    have fits : chunk ≤ blockSize - offset % blockSize := Nat.min_le_left _ _
    have inBlock (k : Nat) (early : k < chunk) : (offset + k) / blockSize = offset / blockSize ∧
        (offset + k) % blockSize = offset % blockSize + k := by
      simp only [blockSize] at fits ⊢
      omega
    have first : (match vfsMemFindBlock n (offset / blockSize) with
        | some block => (List.range chunk).map fun i => block.value (offset % blockSize + i)
        | none => List.replicate chunk 0) =
        (List.range chunk).map fun k => content n (offset + k) := by
      cases found : vfsMemFindBlock n (offset / blockSize) with
      | some block =>
        apply List.map_congr_left
        intro k member
        obtain ⟨sameBlock, place⟩ := inBlock k (List.mem_range.mp member)
        rw [content, sameBlock, found, place]
      | none =>
        symm
        apply List.eq_replicate_iff.mpr
        refine ⟨by simp, ?_⟩
        intro byte member
        obtain ⟨k, early, rfl⟩ := List.mem_map.mp member
        rw [content, (inBlock k (List.mem_range.mp early)).1, found]
    have whole : size = chunk + (size - chunk) := by omega
    rw [readBlocks, if_neg more]
    change _ ++ readBlocks n (offset + chunk) (size - chunk) = _
    rw [ih]
    conv_rhs => rw [whole, List.range_add, List.map_append, List.map_map]
    congr 1
    apply List.map_congr_left
    intro k _
    rw [Function.comp, Nat.add_assoc]

end Kynovo.Vfs.Mem
