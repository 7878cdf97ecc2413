import Sealloc.Library.Prog
import Sealloc.InternalAllocator
import Sealloc.Chunk
import Sealloc.Run

/-! What the allocator works on: the arena, the metadata blocks by address, the bytes of user
memory and the mappings of the process; and the outside world that answers its calls. -/

namespace Sealloc

open Library

/-- An address range. -/
structure Span where
  start : Nat
  len : Nat
  deriving DecidableEq, Repr

namespace Span

def Holds (span : Span) (x : Nat) : Prop := span.start ≤ x ∧ x < span.start + span.len

def Apart (span other : Span) : Prop :=
  span.start + span.len ≤ other.start ∨ other.start + other.len ≤ span.start

instance (span : Span) (x : Nat) : Decidable (span.Holds x) := inferInstanceAs (Decidable (_ ∧ _))

instance (span other : Span) : Decidable (span.Apart other) :=
  inferInstanceAs (Decidable (_ ∨ _))

/-- What is left of a range without `hole`. -/
def minus (hole span : Span) : List Span :=
  [⟨span.start, min (span.start + span.len) hole.start - span.start⟩,
    ⟨max span.start (hole.start + hole.len),
      span.start + span.len - max span.start (hole.start + hole.len)⟩].filter
    fun part => 0 < part.len

end Span

/-- `huge_chunk_t` without the links of its list entry. -/
structure HugeChunk where
  key : Nat
  len : Nat
  deriving DecidableEq, Repr

/-- `arena_t`; its lists hold the addresses of metadata blocks, first entry first. -/
structure Arena where
  brk : Nat
  chunkList : List Nat
  hugeAllocList : List Nat
  internalAllocList : List Nat
  chunkAllocPtr : Nat
  hugeAllocPtr : Nat
  internalAllocPtr : Nat
  bins : Nat → Bin

/-- Where a pointer that was returned came from. -/
inductive Origin where
  | regular (chunk bin run : Nat)
  | huge (huge : Nat)
  deriving DecidableEq, Repr

/-- One `memcpy`. -/
structure Copy where
  dst : Nat
  src : Nat
  len : Nat
  deriving DecidableEq, Repr

/-- What the code finds where it relies on the state of a bin: the available regions before a
run is picked, the drawn index and the length of the list it is drawn for, and the list a
deleted run is on. -/
inductive Finding where
  | minimumRegions (bin availRegs : Nat)
  | picked (bin idx length : Nat)
  | deleted (bin run : Nat) (inactive : Bool)
  deriving DecidableEq, Repr

/-- What happened so far, for statements only: no function of the allocator reads it. -/
structure History where
  granted : List Span
  copies : List Copy
  findings : List Finding
  runChunk : Nat → Nat
  origin : Nat → Option Origin
  unmapFailed : Bool

structure World where
  arena : Arena
  chunks : Nat → Chunk
  runs : Nat → Run
  huges : Nat → HugeChunk
  intAllocs : Nat → IntAlloc
  memory : Nat → Byte
  maps : List Span
  rand32Draws : Nat
  rand64Draws : Nat
  mmapCalls : Nat
  munmapCalls : Nat
  history : History

inductive Errno where
  | eexist
  | einval
  | enomem
  | other
  deriving DecidableEq, Repr

inductive MmapReply where
  | granted (addr : Nat)
  | failed (errno : Errno)
  deriving DecidableEq, Repr

/-- The answers from outside: random values and system calls by number of the call (`mmap`
also by hint and length), and what fresh metadata blocks happen to contain. -/
structure Env where
  rand32 : Nat → Nat
  rand64 : Nat → Nat
  mmap : Nat → Nat → Nat → MmapReply
  munmap : Nat → Option Errno
  staleChunk : Nat → Chunk
  staleRun : Nat → Run

/-- Addresses from here on are never given to a process. -/
def userspaceEnd : Nat := 2 ^ 48

def chunkSizeof : Nat := 21600
def hugeChunkSizeof : Nat := 32

/-- A store to a metadata block leaves nothing of what a user may have kept there. -/
def scribble (memory : Nat → Byte) (start len : Nat) : Nat → Byte := fun x =>
  if start ≤ x ∧ x < start + len then 0#8 else memory x

namespace World

def Mapped (w : World) (x : Nat) : Prop := ∃ span ∈ w.maps, span.Holds x

def setChunk (w : World) (addr : Nat) (ck : Chunk) : World :=
  { w with
    chunks := Function.update w.chunks addr ck
    memory := scribble w.memory addr chunkSizeof }

def setRun (w : World) (addr size : Nat) (run : Run) : World :=
  { w with
    runs := Function.update w.runs addr run
    memory := scribble w.memory addr size }

def setHuge (w : World) (addr : Nat) (huge : HugeChunk) : World :=
  { w with
    huges := Function.update w.huges addr huge
    memory := scribble w.memory addr hugeChunkSizeof }

/-- The entry, `free_mem` and the tree of an internal allocator lie in front of `memory[]`. -/
def setIntAlloc (w : World) (root : Nat) (ia : IntAlloc) : World :=
  { w with
    intAllocs := Function.update w.intAllocs root ia
    memory := scribble w.memory root (intAllocHeaderBytes + internalAllocBuddyTreeSizeBytes) }

def setArena (w : World) (arena : Arena) : World := { w with arena := arena }

def setBin (w : World) (b : Nat) (bin : Bin) : World :=
  w.setArena { w.arena with bins := Function.update w.arena.bins b bin }

def record (w : World) (history : History) : World := { w with history := history }

def draw32 (w : World) (draws : Nat) : World := { w with rand32Draws := w.rand32Draws + draws }

def draw64 (w : World) : World := { w with rand64Draws := w.rand64Draws + 1 }

end World

/-- A range that `mmap` may grant: whole pages of the process of which no byte is mapped. -/
def Grantable (maps : List Span) (span : Span) : Prop :=
  span.start % pageSize = 0 ∧ span.start + span.len ≤ userspaceEnd ∧
    ∀ other ∈ maps, span.Apart other

instance (maps : List Span) (span : Span) : Decidable (Grantable maps span) :=
  inferInstanceAs (Decidable (_ ∧ _ ∧ _))

/-- A granted mapping reads as zeros. -/
def World.addMap (w : World) (span : Span) : World :=
  { w with
    maps := span :: w.maps
    memory := scribble w.memory span.start span.len
    history := { w.history with granted := span :: w.history.granted } }

def World.countMmap (w : World) : World := { w with mmapCalls := w.mmapCalls + 1 }

def mmap (env : Env) (hint len : Nat) : Prog World MmapReply := fun w =>
  if len = 0 then .ok (.failed .einval) w.countMmap
  else
    match env.mmap w.mmapCalls hint len with
    | .failed errno => .ok (.failed errno) w.countMmap
    | .granted addr =>
        if Grantable w.maps ⟨addr, len⟩ then .ok (.granted addr) (w.countMmap.addMap ⟨addr, len⟩)
        else .ok (.failed .eexist) w.countMmap

def World.countMunmap (w : World) : World := { w with munmapCalls := w.munmapCalls + 1 }

def World.removeMap (w : World) (span : Span) : World :=
  { w with maps := w.maps.flatMap span.minus }

/-- `munmap`: the error, or `none` once the range is unmapped. -/
def munmap (env : Env) (ptr len : Nat) : Prog World (Option Errno) := fun w =>
  if ptr % pageSize ≠ 0 ∨ len = 0 then .ok (some .einval) w.countMunmap
  else
    match env.munmap w.munmapCalls with
    | some errno => .ok (some errno) w.countMunmap
    | none => .ok none (w.countMunmap.removeMap ⟨ptr, len⟩)

def splitmix32 (env : Env) : Prog World Nat := fun w =>
  .ok (u32 (env.rand32 w.rand32Draws)) (w.draw32 1)

def splitmix64 (env : Env) : Prog World Nat := fun w =>
  .ok (u64 (env.rand64 w.rand64Draws)) w.draw64

def World.copyBytes (w : World) (copy : Copy) : World :=
  { w with
    memory := fun x =>
      if copy.dst ≤ x ∧ x < copy.dst + copy.len then w.memory (copy.src + (x - copy.dst))
      else w.memory x
    history := { w.history with copies := copy :: w.history.copies } }

/-- `memcpy` of ranges that do not overlap. -/
def memcpy (dst src len : Nat) : Prog World Unit :=
  Prog.modify fun w => w.copyBytes ⟨dst, src, len⟩

/-- `memset` of user memory to zero. -/
def memset0 (dst len : Nat) : Prog World Unit :=
  Prog.modify fun w => { w with memory := scribble w.memory dst len }

def note (finding : Finding) : Prog World Unit :=
  Prog.modify fun w =>
    w.record { w.history with findings := finding :: w.history.findings }

section Blocks

variable (w : World) {addr other size : Nat} {ck : Chunk} {run : Run} {huge : HugeChunk}
  {ia : IntAlloc}

@[simp] theorem setChunk_same : (w.setChunk addr ck).chunks addr = ck :=
  Function.update_self _ _ _

theorem setChunk_other (different : other ≠ addr) :
    (w.setChunk addr ck).chunks other = w.chunks other := Function.update_of_ne different _ _

@[simp] theorem setRun_same : (w.setRun addr size run).runs addr = run :=
  Function.update_self _ _ _

@[simp] theorem setHuge_same : (w.setHuge addr huge).huges addr = huge :=
  Function.update_self _ _ _

theorem setHuge_other (different : other ≠ addr) :
    (w.setHuge addr huge).huges other = w.huges other := Function.update_of_ne different _ _

@[simp] theorem setIntAlloc_same : (w.setIntAlloc addr ia).intAllocs addr = ia :=
  Function.update_self _ _ _

theorem setIntAlloc_other (different : other ≠ addr) :
    (w.setIntAlloc addr ia).intAllocs other = w.intAllocs other :=
  Function.update_of_ne different _ _

theorem setBin_same {b : Nat} {bin : Bin} : (w.setBin b bin).arena.bins b = bin :=
  Function.update_self _ _ _

theorem setBin_other {b c : Nat} {bin : Bin} (different : c ≠ b) :
    (w.setBin b bin).arena.bins c = w.arena.bins c := Function.update_of_ne different _ _

theorem scribble_other {memory : Nat → Byte} {start len x : Nat}
    (outside : ¬ (start ≤ x ∧ x < start + len)) : scribble memory start len x = memory x :=
  if_neg outside

end Blocks

section Rules

variable {ends : Ends World} {w : World} {env : Env}

@[simp] theorem wp_splitmix32 (Q : Nat → World → Prop) : wp ends (splitmix32 env) Q w ↔
    Q (u32 (env.rand32 w.rand32Draws)) (w.draw32 1) := Iff.rfl

@[simp] theorem wp_splitmix64 (Q : Nat → World → Prop) : wp ends (splitmix64 env) Q w ↔
    Q (u64 (env.rand64 w.rand64Draws)) w.draw64 := Iff.rfl

end Rules

end Sealloc
