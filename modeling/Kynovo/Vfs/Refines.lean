import Mathlib.Data.List.Count
import Mathlib.Data.List.Nodup
import Kynovo.Vfs.Mem

/-! The in-memory file system against plain byte files: a file is the list of its bytes, a
path names at most one file, and a file that lost its name is still there for its handles. -/
namespace Kynovo.Vfs.Refines
open Kynovo.Lib.BucketTable
open Kynovo.Vfs.Mem

/-! ## Plain byte files -/

/-- The bytes of a range, if the file has them all. -/
def readAt (file : List UInt8) (offset size : Nat) : Option (List UInt8) :=
  if size = 0 then some []
  else if offset + size ≤ file.length then some ((file.drop offset).take size)
  else none

/-- The file with a range replaced, grown to the end of the range; the hole that this leaves
is zero. -/
def overwrite (file : List UInt8) (offset : Nat) (src : List UInt8) : List UInt8 :=
  (List.range (max file.length (offset + src.length))).map fun p =>
    if offset ≤ p ∧ p < offset + src.length then src.getD (p - offset) 0 else file.getD p 0

def writeAt (file : List UInt8) (offset : Nat) (src : List UInt8) : Option (List UInt8) :=
  if src = [] then some file
  else if offset + src.length < 2 ^ 64 then some (overwrite file offset src)
  else none

/-- Files, the names they are linked under and the handles that are open. -/
structure Plain where
  files : Nat → List UInt8
  names : List UInt8 → Option Nat
  handles : Nat → Option Nat
  nextFile : Nat
  nextHandle : Nat

def Plain.empty : Plain :=
  { files := fun _ => [], names := fun _ => none, handles := fun _ => none
    nextFile := 0, nextHandle := 0 }

/-- The file a path names; a path that names none gets a new empty file. -/
def Plain.resolve (plain : Plain) (path : List UInt8) : Plain × Nat :=
  match plain.names path with
  | some i => (plain, i)
  | none =>
    ({ plain with
        files := Function.update plain.files plain.nextFile []
        names := Function.update plain.names path (some plain.nextFile)
        nextFile := plain.nextFile + 1 }, plain.nextFile)

/-- A handle on a file. -/
def Plain.hold (plain : Plain) (i : Nat) : Plain :=
  { plain with
    handles := Function.update plain.handles plain.nextHandle (some i)
    nextHandle := plain.nextHandle + 1 }

def Plain.call (plain : Plain) : Call → Plain × Answer
  | .open_ path =>
    ((plain.resolve path).1.hold (plain.resolve path).2, .handle plain.nextHandle)
  | .unlink path =>
    match plain.names path with
    | some _ => ({ plain with names := Function.update plain.names path none }, .ok)
    | none => (plain, .failed)
  | .read h offset size =>
    match plain.handles h with
    | none => (plain, .stale)
    | some i =>
      match readAt (plain.files i) offset.toNat size.toNat with
      | some data => (plain, .bytes data)
      | none => (plain, .failed)
  | .write h offset src _ =>
    match plain.handles h with
    | none => (plain, .stale)
    | some i =>
      match writeAt (plain.files i) offset.toNat src with
      | some after => ({ plain with files := Function.update plain.files i after }, .ok)
      | none => (plain, .failed)
  | .close h =>
    match plain.handles h with
    | none => (plain, .stale)
    | some _ => ({ plain with handles := Function.update plain.handles h none }, .ok)

/-- The same with the limits of the file system: a path has a name in it, and no offset is
above `maxOffset`. -/
def Plain.callWithin (plain : Plain) (c : Call) : Plain × Answer :=
  if c.passes then plain.call c else (plain, .failed)

/-! ## One file -/

/-- An inode holds a plain file: its length is the logical size, and past it, as in every
hole, the blocks read as zero. -/
structure Holds (n : Inode) (file : List UInt8) : Prop where
  stored : Stored n
  length : file.length = n.logicalSize
  bytes : ∀ p, file.getD p 0 = content n p

theorem Holds.of_blocks {n m : Inode} {file : List UInt8} (held : Holds n file)
    (size : m.logicalSize = n.logicalSize) (blocks : m.blocks = n.blocks) : Holds m file := by
  obtain ⟨stored, length, bytes⟩ := held
  constructor
  · unfold Stored
    rw [blocks]
    exact stored
  · rw [size]
    exact length
  · intro p
    rw [bytes]
    unfold content vfsMemFindBlock
    rw [blocks]

theorem vfsMemRead_plain {n : Inode} {file : List UInt8} (held : Holds n file)
    (offset : UInt64) (size : UInt32) :
    vfsMemRead n offset size = readAt file offset.toNat size.toNat := by
  unfold vfsMemRead readAt
  by_cases nothing : size = 0
  · rw [if_pos nothing, if_pos (by rw [nothing]; rfl)]
  · have something : size.toNat ≠ 0 := fun zero => nothing (UInt32.toNat_inj.mp zero)
    rw [if_neg nothing, if_neg something, ← held.length]
    by_cases inside : offset.toNat + size.toNat ≤ file.length
    · have granted : ¬ (offset.toNat > file.length ∨ size.toNat > file.length - offset.toNat) := by
        omega
      rw [if_neg granted, if_pos inside, readBlocks_spec]
      congr 1
      apply List.ext_getElem
      · simp only [List.length_map, List.length_range, List.length_take, List.length_drop]
        omega
      · intro k early late
        simp only [List.length_map, List.length_range] at early
        have byte := held.bytes (offset.toNat + k)
        rw [List.getD_eq_getElem?_getD, List.getElem?_eq_getElem (by omega)] at byte
        simpa using byte.symm
    · have refused : offset.toNat > file.length ∨ size.toNat > file.length - offset.toNat := by
        omega
      rw [if_pos refused, if_neg inside]

theorem getD_overwrite (file : List UInt8) (offset : Nat) (src : List UInt8) (p : Nat) :
    (overwrite file offset src).getD p 0 =
      if offset ≤ p ∧ p < offset + src.length then src.getD (p - offset) 0
      else file.getD p 0 := by
  unfold overwrite
  rw [List.getD_eq_getElem?_getD, List.getElem?_map]
  by_cases inside : p < max file.length (offset + src.length)
  · rw [List.getElem?_range inside]
    rfl
  · have past : (List.range (max file.length (offset + src.length)))[p]? = none := by
      rw [List.getElem?_eq_none_iff, List.length_range]
      omega
    have outside : ¬ (offset ≤ p ∧ p < offset + src.length) := by omega
    rw [past, if_neg outside, List.getD_eq_getElem?_getD, List.getElem?_eq_none (by omega)]
    rfl

/-- A write is refused by both, or both have the same file after it. -/
theorem vfsMemWrite_plain {n : Inode} {file : List UInt8} (held : Holds n file)
    (offset : UInt64) {src : List UInt8} (fits : src.length < 2 ^ 32) :
    (vfsMemWrite n offset src = none ∧ writeAt file offset.toNat src = none) ∨
      ∃ m after, vfsMemWrite n offset src = some m ∧
        writeAt file offset.toNat src = some after ∧ Holds m after ∧
        m.path = n.path ∧ m.refcount = n.refcount ∧ m.linked = n.linked := by
  have low : offset.toNat < 2 ^ 64 := offset.toNat_lt
  unfold vfsMemWrite writeAt
  by_cases nothing : src = []
  · rw [if_pos nothing, if_pos nothing]
    exact Or.inr ⟨n, file, rfl, rfl, held, rfl, rfl, rfl⟩
  · have some_ : 0 < src.length := List.length_pos_iff.mpr nothing
    rw [if_neg nothing, if_neg nothing]
    dsimp only
    by_cases reach : offset.toNat + src.length < 2 ^ 64
    · have last : (offset.toNat + src.length) % 2 ^ 64 = offset.toNat + src.length :=
        Nat.mod_eq_of_lt reach
      have granted : ¬ offset.toNat + src.length < offset.toNat := by omega
      rw [last, if_neg granted, if_pos reach]
      obtain ⟨same, stored, changed⟩ := writeBlocks_spec held.stored offset.toNat src
      refine Or.inr ⟨_, _, rfl, rfl, ?_, same.path, same.refcount, same.linked⟩
      constructor
      · exact stored
      · simp only [overwrite, List.length_map, List.length_range, same.logicalSize, held.length]
        split
        · omega
        · omega
      · intro p
        rw [getD_overwrite, held.bytes]
        exact (changed p).symm
    · have wraps : (offset.toNat + src.length) % 2 ^ 64 < offset.toNat := by omega
      rw [if_pos wraps, if_neg reach]
      exact Or.inl ⟨rfl, rfl⟩

/-! ## References -/

/-- The handles that refer to an inode. -/
def refs (handles : Nat → Option Nat) (next i : Nat) : Nat :=
  (List.range next).countP fun h => handles h = some i

theorem refs_below (handles : Nat → Option Nat) (h next i : Nat) (target : Option Nat)
    (above : next ≤ h) : refs (Function.update handles h target) next i = refs handles next i := by
  apply List.countP_congr
  intro k member
  have distinct : k ≠ h := by
    have early := List.mem_range.mp member
    omega
  rw [Function.update_of_ne distinct]

theorem refs_succ (handles : Nat → Option Nat) (next i : Nat) :
    refs handles (next + 1) i = refs handles next i + if handles next = some i then 1 else 0 := by
  unfold refs
  rw [List.range_succ, List.countP_append, List.countP_singleton]
  by_cases here : handles next = some i
  · simp [here]
  · simp [here]

theorem refs_open (handles : Nat → Option Nat) (next i k : Nat) :
    refs (Function.update handles next (some i)) (next + 1) k =
      refs handles next k + if i = k then 1 else 0 := by
  rw [refs_succ, refs_below _ _ _ _ _ (Nat.le_refl next), Function.update_self]
  simp

theorem refs_close (handles : Nat → Option Nat) {h i next : Nat} (k : Nat)
    (held : handles h = some i) (early : h < next) :
    refs handles next k =
      refs (Function.update handles h none) next k + if i = k then 1 else 0 := by
  induction next with
  | zero => exact absurd early (Nat.not_lt_zero h)
  | succ next ih =>
    rw [refs_succ, refs_succ]
    by_cases here : h = next
    · rw [← here, refs_below _ _ _ _ _ (Nat.le_refl h), Function.update_self, held]
      simp
    · rw [ih (by omega), Function.update_of_ne (Ne.symm here)]
      omega

theorem refs_zero {handles : Nat → Option Nat} {h i next : Nat} (held : handles h = some i)
    (early : h < next) : refs handles next i ≠ 0 := by
  intro none
  have absent := List.countP_eq_zero.mp none h (List.mem_range.mpr early)
  rw [held] at absent
  simp at absent

/-! ## The file system -/

/-- The in-memory file system stands for plain files. -/
structure Simulates (fs : Fs) (plain : Plain) : Prop where
  handles : plain.handles = fs.handles
  nextHandle : plain.nextHandle = fs.nextHandle
  nextFile : plain.nextFile = fs.nextInode
  names : ∀ path i, plain.names path = some i ↔
    i ∈ fs.buckets (slotOf path) ∧ ∃ n, fs.inodes i = some n ∧ n.path = path
  linked : ∀ j, ∀ i ∈ fs.buckets j, ∃ n, fs.inodes i = some n ∧ n.linked = true ∧ slotOf n.path = j
  distinct : ∀ j, (fs.buckets j).Nodup
  live : ∀ h i, fs.handles h = some i → h < fs.nextHandle ∧ ∃ n, fs.inodes i = some n
  older : ∀ i n, fs.inodes i = some n → i < fs.nextInode
  counted : ∀ i n, fs.inodes i = some n → n.refcount = refs fs.handles fs.nextHandle i
  holds : ∀ i n, fs.inodes i = some n → Holds n (plain.files i)

theorem simulates_empty : Simulates Fs.empty Plain.empty := by
  constructor
  · rfl
  · rfl
  · rfl
  · intro path i
    simp [Plain.empty, Fs.empty]
  · intro j i member
    cases member
  · intro j
    exact List.nodup_nil
  · intro h i held
    cases held
  · intro i n live
    cases live
  · intro i n live
    cases live
  · intro i n live
    cases live

variable {fs : Fs} {plain : Plain}

theorem Simulates.file (r : Simulates fs plain) (h : Nat) :
    (fs.file h = none ∧ plain.handles h = none) ∨
      ∃ i n, fs.file h = some (i, n) ∧ plain.handles h = some i ∧ fs.handles h = some i ∧
        fs.inodes i = some n := by
  rw [r.handles]
  unfold Fs.file
  cases held : fs.handles h with
  | none => exact Or.inl ⟨rfl, rfl⟩
  | some i =>
    obtain ⟨_, n, live⟩ := r.live h i held
    right
    refine ⟨i, n, ?_, rfl, rfl, live⟩
    rw [Option.bind_some, live]
    rfl

/-- A search of the bucket of a path, by name alone or among linked inodes, finds the file
that the path names. -/
theorem Simulates.lookup (r : Simulates fs plain) (path : List UInt8) {wanted : Nat → Bool}
    (sound : ∀ i n, fs.inodes i = some n → n.linked = true → (wanted i = true ↔ n.path = path)) :
    (fs.buckets (slotOf path)).find? wanted = plain.names path := by
  cases found : (fs.buckets (slotOf path)).find? wanted with
  | some i =>
    symm
    have member := List.mem_of_find?_eq_some found
    obtain ⟨n, live, linked, _⟩ := r.linked _ i member
    apply (r.names path i).mpr
    exact ⟨member, n, live, (sound i n live linked).mp (List.find?_some found)⟩
  | none =>
    symm
    cases named : plain.names path with
    | none => rfl
    | some i =>
      obtain ⟨member, n, live, same⟩ := (r.names path i).mp named
      obtain ⟨m, alive, linked, _⟩ := r.linked _ i member
      rw [live] at alive
      cases alive
      have refused := List.find?_eq_none.mp found i member
      exact absurd ((sound i n live linked).mpr same) refused

theorem Simulates.find_open (r : Simulates fs plain) (path : List UInt8) :
    ((fs.buckets (slotOf path)).find? fun i =>
      (fs.inodes i).any fun n => n.linked && n.path = path) = plain.names path := by
  apply r.lookup
  intro i n live linked
  rw [live]
  simp [linked]

theorem Simulates.find_named (r : Simulates fs plain) (path : List UInt8) :
    (fs.buckets (slotOf path)).find? (fs.named path) = plain.names path := by
  apply r.lookup
  intro i n live linked
  unfold Fs.named
  rw [live]
  simp

/-! ## Changes -/

theorem put_inodes {i k : Nat} {m n : Inode} :
    (fs.put i m).inodes k = some n ↔ (k = i ∧ m = n) ∨ (k ≠ i ∧ fs.inodes k = some n) := by
  unfold Fs.put
  dsimp only
  by_cases same : k = i
  · rw [same, Function.update_self]
    simp
  · rw [Function.update_of_ne same]
    simp [same]

theorem free_inodes {i k : Nat} {n : Inode} :
    (fs.free i).inodes k = some n ↔ k ≠ i ∧ fs.inodes k = some n := by
  unfold Fs.free
  dsimp only
  by_cases same : k = i
  · rw [same, Function.update_self]
    simp
  · rw [Function.update_of_ne same]
    simp [same]

/-- A path without a file gets a new one. -/
theorem Simulates.create (r : Simulates fs plain) {path : List UInt8}
    (unnamed : plain.names path = none) :
    Simulates
      { fs.put fs.nextInode { path, logicalSize := 0, blocks := [], nblocks := 0, refcount := 0,
                              linked := true } with
        buckets := Function.update fs.buckets (slotOf path)
          (fs.nextInode :: fs.buckets (slotOf path))
        nextInode := fs.nextInode + 1 }
      { plain with
        files := Function.update plain.files plain.nextFile []
        names := Function.update plain.names path (some plain.nextFile)
        nextFile := plain.nextFile + 1 } := by
  have fresh (j : Nat) : fs.nextInode ∉ fs.buckets j := by
    intro member
    obtain ⟨n, live, _⟩ := r.linked j _ member
    exact Nat.lt_irrefl _ (r.older _ n live)
  have unheld (h : Nat) : fs.handles h ≠ some fs.nextInode := by
    intro held
    obtain ⟨_, n, live⟩ := r.live h _ held
    exact Nat.lt_irrefl _ (r.older _ n live)
  have members (j i : Nat) : i ∈ Function.update fs.buckets (slotOf path)
      (fs.nextInode :: fs.buckets (slotOf path)) j ↔
      (j = slotOf path ∧ i = fs.nextInode) ∨ i ∈ fs.buckets j := by
    by_cases here : j = slotOf path
    · rw [here, Function.update_self, List.mem_cons]
      simp
    · rw [Function.update_of_ne here]
      simp [here]
  constructor
  · exact r.handles
  · exact r.nextHandle
  · exact congrArg (· + 1) r.nextFile
  · intro other i
    dsimp only
    rw [members, r.nextFile]
    simp only [put_inodes]
    by_cases same : other = path
    · rw [same, Function.update_self]
      constructor
      · rintro ⟨⟩
        exact ⟨Or.inl ⟨rfl, rfl⟩, _, Or.inl ⟨rfl, rfl⟩, rfl⟩
      · rintro ⟨⟨_, rfl⟩ | member, n, ⟨new, _⟩ | ⟨_, live⟩, named⟩
        · rfl
        · rfl
        · rw [new]
        · have already := (r.names path i).mpr ⟨member, n, live, named⟩
          rw [unnamed] at already
          cases already
    · rw [Function.update_of_ne same, r.names]
      constructor
      · rintro ⟨member, n, live, named⟩
        have known : i ≠ fs.nextInode := fun new => fresh _ (new ▸ member)
        exact ⟨Or.inr member, n, Or.inr ⟨known, live⟩, named⟩
      · rintro ⟨placed, n, ⟨_, rfl⟩ | ⟨known, live⟩, named⟩
        · exact absurd named.symm same
        · exact ⟨placed.resolve_left fun new => known new.2, n, live, named⟩
  · intro j i member
    simp only [put_inodes]
    rcases (members j i).mp member with ⟨rfl, rfl⟩ | known
    · exact ⟨_, Or.inl ⟨rfl, rfl⟩, rfl, rfl⟩
    · obtain ⟨n, live, linked, slot⟩ := r.linked j i known
      exact ⟨n, Or.inr ⟨fun new => fresh j (new ▸ known), live⟩, linked, slot⟩
  · intro j
    by_cases here : j = slotOf path
    · dsimp only
      rw [here, Function.update_self]
      exact List.nodup_cons.mpr ⟨fresh _, r.distinct _⟩
    · dsimp only
      rw [Function.update_of_ne here]
      exact r.distinct j
  · intro h i held
    obtain ⟨early, n, live⟩ := r.live h i held
    exact ⟨early, n, put_inodes.mpr (Or.inr ⟨fun new => unheld h (new ▸ held), live⟩)⟩
  · intro i n live
    rcases put_inodes.mp live with ⟨rfl, _⟩ | ⟨_, known⟩
    · exact Nat.lt_succ_self _
    · exact Nat.lt_succ_of_lt (r.older i n known)
  · intro i n live
    rcases put_inodes.mp live with ⟨rfl, rfl⟩ | ⟨_, known⟩
    · have unused : refs fs.handles fs.nextHandle fs.nextInode = 0 := by
        apply List.countP_eq_zero.mpr
        intro h _
        simpa using unheld h
      change (0 : Int) = refs fs.handles fs.nextHandle fs.nextInode
      rw [unused]
      rfl
    · exact r.counted i n known
  · intro i n live
    dsimp only
    rw [r.nextFile]
    rcases put_inodes.mp live with ⟨rfl, rfl⟩ | ⟨other, known⟩
    · rw [Function.update_self]
      exact ⟨Or.inl rfl, rfl, fun p => by simp [content, vfsMemFindBlock]⟩
    · rw [Function.update_of_ne other]
      exact r.holds i n known

/-- An inode replaced by one with the same name, together with the handles, as long as it
counts its handles and the others have theirs. -/
theorem Simulates.put (r : Simulates fs plain) (handles : Nat → Option Nat) (next : Nat)
    {i : Nat} {n m : Inode} {file : List UInt8} (live : fs.inodes i = some n) (path : m.path = n.path) (linked : m.linked = n.linked)
    (held : Holds m file)
    (open_ : ∀ h k, handles h = some k → h < next ∧ ∃ n, fs.inodes k = some n)
    (count : m.refcount = refs handles next i)
    (others : ∀ k, k ≠ i → refs handles next k = refs fs.handles fs.nextHandle k) :
    Simulates { fs.put i m with handles := handles, nextHandle := next }
      { plain with
        files := Function.update plain.files i file, handles := handles, nextHandle := next } := by
  have alive {k : Nat} : (∃ n, (fs.put i m).inodes k = some n) ↔ ∃ n, fs.inodes k = some n := by
    simp only [put_inodes]
    constructor
    · rintro ⟨a, ⟨rfl, _⟩ | ⟨_, known⟩⟩
      · exact ⟨n, live⟩
      · exact ⟨a, known⟩
    · rintro ⟨a, known⟩
      by_cases same : k = i
      · exact ⟨m, Or.inl ⟨same, rfl⟩⟩
      · exact ⟨a, Or.inr ⟨same, known⟩⟩
  have named {k : Nat} (p : List UInt8) : (∃ n, (fs.put i m).inodes k = some n ∧ n.path = p) ↔
      ∃ n, fs.inodes k = some n ∧ n.path = p := by
    simp only [put_inodes]
    constructor
    · rintro ⟨a, ⟨rfl, rfl⟩ | ⟨_, known⟩, same⟩
      · exact ⟨n, live, path.symm.trans same⟩
      · exact ⟨a, known, same⟩
    · rintro ⟨a, known, same⟩
      by_cases here : k = i
      · rw [here, live] at known
        cases known
        exact ⟨m, Or.inl ⟨here, rfl⟩, path.trans same⟩
      · exact ⟨a, Or.inr ⟨here, known⟩, same⟩
  constructor
  · rfl
  · rfl
  · exact r.nextFile
  · intro p k
    exact (r.names p k).trans (and_congr_right fun _ => (named p).symm)
  · intro j k member
    obtain ⟨a, known, isLinked, slot⟩ := r.linked j k member
    simp only [put_inodes]
    by_cases here : k = i
    · rw [here, live] at known
      cases known
      exact ⟨m, Or.inl ⟨here, rfl⟩, linked.trans isLinked, by rw [path, slot]⟩
    · exact ⟨a, Or.inr ⟨here, known⟩, isLinked, slot⟩
  · exact r.distinct
  · intro h k opened
    obtain ⟨early, known⟩ := open_ h k opened
    exact ⟨early, alive.mpr known⟩
  · intro k a there
    obtain ⟨b, known⟩ := alive.mp ⟨a, there⟩
    exact r.older k b known
  · intro k a there
    rcases put_inodes.mp there with ⟨rfl, rfl⟩ | ⟨other, known⟩
    · exact count
    · change a.refcount = refs handles next k
      rw [others k other]
      exact r.counted k a known
  · intro k a there
    dsimp only
    rcases put_inodes.mp there with ⟨rfl, rfl⟩ | ⟨other, known⟩
    · rw [Function.update_self]
      exact held
    · rw [Function.update_of_ne other]
      exact r.holds k a known

/-- The file of a path loses its name and stays for its handles. -/
theorem Simulates.forget (r : Simulates fs plain) {path : List UInt8} {i : Nat} {n : Inode}
    (named : plain.names path = some i) (live : fs.inodes i = some n) :
    Simulates
      ({ fs with
        buckets := Function.update fs.buckets (slotOf path)
          ((fs.buckets (slotOf path)).eraseP (fs.named path)) }.put i { n with linked := false })
      { plain with names := Function.update plain.names path none } := by
  obtain ⟨inBucket, m, alive, isPath⟩ := (r.names path i).mp named
  rw [live] at alive
  cases alive
  -- the search stops at this inode, for no other in the bucket has the path
  have only {k : Nat} (member : k ∈ fs.buckets (slotOf path)) (hit : fs.named path k = true) :
      k = i := by
    obtain ⟨a, known, _⟩ := r.linked _ k member
    have same : a.path = path := by
      unfold Fs.named at hit
      rw [known] at hit
      simpa using hit
    have both := (r.names path k).mpr ⟨member, a, known, same⟩
    rw [named] at both
    exact (Option.some.inj both).symm
  have hit : fs.named path i = true := by
    unfold Fs.named
    rw [live]
    simpa using isPath
  have erased (k : Nat) : k ∈ (fs.buckets (slotOf path)).eraseP (fs.named path) ↔
      k ∈ fs.buckets (slotOf path) ∧ k ≠ i := by
    obtain ⟨a, before, after, _, found, whole, rest⟩ := List.exists_of_eraseP inBucket hit
    have here : a = i := only (by simp [whole]) found
    have unique := r.distinct (slotOf path)
    rw [rest]
    rw [whole] at unique ⊢
    subst a
    have absent := (List.nodup_middle.mp unique)
    rw [List.nodup_cons, List.mem_append] at absent
    simp only [List.mem_append, List.mem_cons]
    constructor
    · rintro (early | late)
      · exact ⟨Or.inl early, fun same => absent.1 (Or.inl (same ▸ early))⟩
      · exact ⟨Or.inr (Or.inr late), fun same => absent.1 (Or.inr (same ▸ late))⟩
    · rintro ⟨early | same | late, other⟩
      · exact Or.inl early
      · exact absurd same other
      · exact Or.inr late
  have members (j k : Nat) : k ∈ Function.update fs.buckets (slotOf path)
      ((fs.buckets (slotOf path)).eraseP (fs.named path)) j ↔ k ∈ fs.buckets j ∧ k ≠ i := by
    by_cases here : j = slotOf path
    · rw [here, Function.update_self, erased]
    · rw [Function.update_of_ne here]
      constructor
      · intro member
        refine ⟨member, ?_⟩
        rintro rfl
        obtain ⟨a, known, _, slot⟩ := r.linked j k member
        rw [live] at known
        cases known
        exact here (slot.symm.trans (congrArg slotOf isPath))
      · exact And.left
  constructor
  · exact r.handles
  · exact r.nextHandle
  · exact r.nextFile
  · intro p k
    refine Iff.trans ?_ (and_congr_left' (members (slotOf p) k).symm)
    simp only [put_inodes]
    by_cases same : p = path
    · rw [same, Function.update_self]
      constructor
      · intro none
        cases none
      · rintro ⟨⟨member, other⟩, a, ⟨here, _⟩ | ⟨_, known⟩, isPath⟩
        · exact absurd here other
        · have both := (r.names path k).mpr ⟨member, a, known, isPath⟩
          rw [named] at both
          exact absurd (Option.some.inj both).symm other
    · rw [Function.update_of_ne same, r.names]
      constructor
      · rintro ⟨member, a, known, isOther⟩
        have other : k ≠ i := by
          rintro rfl
          rw [live] at known
          cases known
          exact same (isOther.symm.trans isPath)
        exact ⟨⟨member, other⟩, a, Or.inr ⟨other, known⟩, isOther⟩
      · rintro ⟨⟨member, other⟩, a, ⟨here, _⟩ | ⟨_, known⟩, isOther⟩
        · exact absurd here other
        · exact ⟨member, a, known, isOther⟩
  · intro j k member
    obtain ⟨known, other⟩ := (members j k).mp member
    obtain ⟨a, there, isLinked, slot⟩ := r.linked j k known
    exact ⟨a, put_inodes.mpr (Or.inr ⟨other, there⟩), isLinked, slot⟩
  · intro j
    change (Function.update fs.buckets (slotOf path) _ j).Nodup
    by_cases here : j = slotOf path
    · rw [here, Function.update_self]
      exact (r.distinct _).sublist List.eraseP_sublist
    · rw [Function.update_of_ne here]
      exact r.distinct j
  · intro h k held
    obtain ⟨early, a, known⟩ := r.live h k held
    refine ⟨early, ?_⟩
    simp only [put_inodes]
    by_cases here : k = i
    · exact ⟨_, Or.inl ⟨here, rfl⟩⟩
    · exact ⟨a, Or.inr ⟨here, known⟩⟩
  · intro k a there
    rcases put_inodes.mp there with ⟨rfl, _⟩ | ⟨_, known⟩
    · exact r.older k n live
    · exact r.older k a known
  · intro k a there
    rcases put_inodes.mp there with ⟨rfl, rfl⟩ | ⟨_, known⟩
    · exact r.counted k n live
    · exact r.counted k a known
  · intro k a there
    rcases put_inodes.mp there with ⟨rfl, rfl⟩ | ⟨_, known⟩
    · exact (r.holds k n live).of_blocks rfl rfl
    · exact r.holds k a known

/-- An inode that no path and no handle leads to is freed. -/
theorem Simulates.free (r : Simulates fs plain) {i : Nat} (unlinked : ∀ j, i ∉ fs.buckets j)
    (unheld : ∀ h, fs.handles h ≠ some i) : Simulates (fs.free i) plain := by
  have kept {k : Nat} (other : k ≠ i) : (fs.free i).inodes k = fs.inodes k :=
    Function.update_of_ne other _ _
  constructor
  · exact r.handles
  · exact r.nextHandle
  · exact r.nextFile
  · intro p k
    rw [r.names]
    apply and_congr_right
    intro member
    rw [kept fun same => unlinked _ (same ▸ member)]
  · intro j k member
    rw [kept fun same => unlinked _ (same ▸ member)]
    exact r.linked j k member
  · exact r.distinct
  · intro h k held
    rw [kept fun same => unheld h (same ▸ held)]
    exact r.live h k held
  · intro k n there
    exact r.older k n (free_inodes.mp there).2
  · intro k n there
    exact r.counted k n (free_inodes.mp there).2
  · intro k n there
    exact r.holds k n (free_inodes.mp there).2

/-! ## Calls -/

/-- A handle on a live inode. -/
theorem Simulates.hold (r : Simulates fs plain) {i : Nat} {n : Inode}
    (live : fs.inodes i = some n) :
    Simulates
      { fs.put i { n with refcount := n.refcount + 1 } with
        handles := Function.update fs.handles fs.nextHandle (some i)
        nextHandle := fs.nextHandle + 1 }
      (plain.hold i) := by
  have counted := r.counted i n live
  have held := r.put (Function.update fs.handles fs.nextHandle (some i)) (fs.nextHandle + 1)
    (m := { n with refcount := n.refcount + 1 }) live rfl rfl
    ((r.holds i n live).of_blocks rfl rfl)
    (by
      intro h k opened
      by_cases new : h = fs.nextHandle
      · rw [new, Function.update_self] at opened
        cases opened
        exact ⟨new ▸ Nat.lt_succ_self _, n, live⟩
      · rw [Function.update_of_ne new] at opened
        obtain ⟨early, known⟩ := r.live h k opened
        exact ⟨Nat.lt_succ_of_lt early, known⟩)
    (by
      rw [refs_open, if_pos rfl]
      change n.refcount + 1 = _
      rw [counted]
      rfl)
    (by
      intro k other
      rw [refs_open, if_neg (Ne.symm other), Nat.add_zero])
  rw [Function.update_eq_self] at held
  unfold Plain.hold
  rw [r.handles, r.nextHandle]
  exact held

/-- A handle given back, on an inode that stays or that no path and no other handle leads to. -/
theorem Simulates.close (r : Simulates fs plain) {h i : Nat} {n : Inode}
    (opened : fs.handles h = some i) (live : fs.inodes i = some n) :
    Simulates (vfsMemClose fs h i n)
      { plain with handles := Function.update plain.handles h none } := by
  have early := (r.live h i opened).1
  have counted := r.counted i n live
  rw [refs_close fs.handles i opened early, if_pos rfl] at counted
  have closed := r.put (Function.update fs.handles h none) fs.nextHandle
    (m := { n with refcount := n.refcount - 1 }) live rfl rfl
    ((r.holds i n live).of_blocks rfl rfl)
    (by
      intro k j held
      by_cases same : k = h
      · rw [same, Function.update_self] at held
        cases held
      · rw [Function.update_of_ne same] at held
        exact r.live k j held)
    (by
      change n.refcount - 1 = _
      rw [counted]
      omega)
    (by
      intro k other
      rw [refs_close fs.handles k opened early, if_neg (Ne.symm other), Nat.add_zero])
  rw [Function.update_eq_self] at closed
  rw [r.handles]
  have shape : ({ plain with
      handles := Function.update fs.handles h none, nextHandle := fs.nextHandle } : Plain) =
      { plain with handles := Function.update fs.handles h none } := by
    rw [← r.nextHandle]
  rw [shape] at closed
  unfold vfsMemClose
  dsimp only
  split
  · rename_i last
    obtain ⟨unused, gone⟩ := last
    have unheld : ∀ k, Function.update fs.handles h none k ≠ some i := by
      intro k held
      have none : refs (Function.update fs.handles h none) fs.nextHandle i = 0 := by
        omega
      exact refs_zero held (closed.live k i held).1 none
    have unlinked : ∀ j, i ∉ fs.buckets j := by
      intro j member
      obtain ⟨a, known, linked, _⟩ := r.linked j i member
      rw [live] at known
      cases known
      rw [gone] at linked
      cases linked
    have freed := closed.free unlinked unheld
    unfold Fs.free Fs.put at freed
    dsimp only at freed
    rw [Function.update_idem] at freed
    exact freed
  · exact closed

theorem Simulates.unlink (r : Simulates fs plain) {path : List UInt8} {i : Nat}
    (named : plain.names path = some i) :
    ∃ after, vfsMemUnlink fs path = some after ∧
      Simulates after { plain with names := Function.update plain.names path none } := by
  obtain ⟨inBucket, n, live, isPath⟩ := (r.names path i).mp named
  have forgotten := r.forget named live
  unfold vfsMemUnlink
  rw [r.find_named, named]
  dsimp only
  rw [live]
  refine ⟨_, rfl, ?_⟩
  split
  · rename_i unused
    have counted := r.counted i n live
    have unheld : ∀ k, fs.handles k ≠ some i := by
      intro k held
      exact refs_zero held (r.live k i held).1 (by omega)
    have unlinked : ∀ j, i ∉ Function.update fs.buckets (slotOf path)
        ((fs.buckets (slotOf path)).eraseP (fs.named path)) j := by
      intro j member
      obtain ⟨a, known, linked, _⟩ := forgotten.linked j i member
      rcases put_inodes.mp known with ⟨_, rfl⟩ | ⟨other, _⟩
      · cases linked
      · exact other rfl
    have freed := forgotten.free unlinked unheld
    unfold Fs.free Fs.put at freed
    dsimp only at freed
    rw [Function.update_idem] at freed
    exact freed
  · exact forgotten

theorem Simulates.resolve (r : Simulates fs plain) (path : List UInt8) :
    (openInode fs path).2 = (plain.resolve path).2 ∧
      Simulates (openInode fs path).1 (plain.resolve path).1 ∧
      ∃ n, (openInode fs path).1.inodes (openInode fs path).2 = some n := by
  unfold openInode Plain.resolve
  rw [r.find_open]
  cases named : plain.names path with
  | some i =>
    obtain ⟨_, n, live, _⟩ := (r.names path i).mp named
    exact ⟨rfl, r, n, live⟩
  | none =>
    refine ⟨r.nextFile.symm, r.create named, ?_⟩
    exact ⟨_, put_inodes.mpr (Or.inl ⟨rfl, rfl⟩)⟩

/-- One call of the backend: the answers agree, and so do the states after it. -/
theorem Simulates.backend (r : Simulates fs plain) (c : Call) :
    (fs.backend c).2 = (plain.call c).2 ∧ Simulates (fs.backend c).1 (plain.call c).1 := by
  cases c with
  | open_ path =>
    obtain ⟨same, resolved, n, live⟩ := r.resolve path
    have held := resolved.hold live
    have kept : (openInode fs path).1.nextHandle = fs.nextHandle := by
      unfold openInode
      split
      · rfl
      · rfl
    simp only [Fs.backend, Plain.call, vfsMemOpen, live]
    constructor
    · rw [kept, r.nextHandle]
    · rw [← same]
      exact held
  | unlink path =>
    simp only [Fs.backend, Plain.call]
    cases named : plain.names path with
    | none =>
      have refused : vfsMemUnlink fs path = none := by
        unfold vfsMemUnlink
        rw [r.find_named, named]
      rw [refused]
      exact ⟨rfl, r⟩
    | some i =>
      obtain ⟨after, done, simulates⟩ := r.unlink named
      rw [done]
      exact ⟨rfl, simulates⟩
  | read h offset size =>
    simp only [Fs.backend, Plain.call]
    rcases r.file h with ⟨stale, unheld⟩ | ⟨i, n, file, held, _, live⟩
    · rw [stale, unheld]
      exact ⟨rfl, r⟩
    · rw [file, held]
      dsimp only
      rw [vfsMemRead_plain (r.holds i n live)]
      cases readAt (plain.files i) offset.toNat size.toNat with
      | none => exact ⟨rfl, r⟩
      | some data => exact ⟨rfl, r⟩
  | write h offset src fits =>
    simp only [Fs.backend, Plain.call]
    rcases r.file h with ⟨stale, unheld⟩ | ⟨i, n, file, held, _, live⟩
    · rw [stale, unheld]
      exact ⟨rfl, r⟩
    · rw [file, held]
      dsimp only
      rcases vfsMemWrite_plain (r.holds i n live) offset fits with
        ⟨refused, refusedToo⟩ | ⟨m, after, done, doneToo, holds, path, refcount, linked⟩
      · rw [refused, refusedToo]
        exact ⟨rfl, r⟩
      · rw [done, doneToo]
        refine ⟨rfl, ?_⟩
        have written := r.put fs.handles fs.nextHandle live path linked holds r.live
          (refcount.trans (r.counted i n live)) fun _ _ => rfl
        rw [← r.handles, ← r.nextHandle] at written
        have shape : ({ fs.put i m with
            handles := plain.handles, nextHandle := plain.nextHandle } : Fs) = fs.put i m := by
          rw [r.handles, r.nextHandle]
          rfl
        rw [shape] at written
        exact written
  | close h =>
    simp only [Fs.backend, Plain.call]
    rcases r.file h with ⟨stale, unheld⟩ | ⟨i, n, file, held, opened, live⟩
    · rw [stale, unheld]
      exact ⟨rfl, r⟩
    · rw [file, held]
      exact ⟨rfl, r.close opened live⟩

theorem Simulates.call (r : Simulates fs plain) (c : Call) :
    (fs.call c).2 = (plain.callWithin c).2 ∧ Simulates (fs.call c).1 (plain.callWithin c).1 := by
  unfold Fs.call Plain.callWithin
  by_cases passes : c.passes = true
  · rw [if_pos passes, if_pos passes]
    exact r.backend c
  · rw [if_neg passes, if_neg passes]
    exact ⟨rfl, r⟩

/-- Any sequence of opens, writes, reads, unlinks and closes is answered as plain byte files
answer it, but for the limits on paths and offsets. -/
theorem vfsMem_refines_plain (calls : List Call) :
    answers Fs.call Fs.empty calls = answers Plain.callWithin Plain.empty calls :=
  answers_eq Simulates (fun _ _ c now => now.call c) calls simulates_empty

/-- Two bytes are written across the limit, and the second is asked for. -/
def pastLimit : List Call :=
  [.open_ [97], .write 0 0x7fffffffffffffff [1, 2] (by decide), .read 0 0x8000000000000000 1]

/-- A plain file gives the byte; the file system refuses the offset. -/
theorem read_past_limit_refused :
    answers Fs.call Fs.empty pastLimit = [.handle 0, .ok, .failed] ∧
      answers Plain.call Plain.empty pastLimit = [.handle 0, .ok, .bytes [2]] := by
  refine ⟨by decide +kernel, ?_⟩
  have backend : answers Fs.backend Fs.empty pastLimit = answers Plain.call Plain.empty pastLimit :=
    answers_eq Simulates (fun _ _ c now => now.backend c) pastLimit simulates_empty
  rw [← backend]
  decide +kernel

end Kynovo.Vfs.Refines
