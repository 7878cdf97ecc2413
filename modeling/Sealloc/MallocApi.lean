import Sealloc.Logging.Format
import Sealloc.Random
import Sealloc.World.Session

/-! The functions that `malloc_api.c` exports, with the arena of the process that the first
allocation initialises. -/

namespace Sealloc

open Library

/-- What a process finds out when its arena is initialised. -/
structure System where
  env : Env
  charSigned : Bool
  /-- `getenv("SEALLOC_SEED")`. -/
  seed : Option CString
  urandomOpen : Option Errno
  /-- The bytes that `read` puts into the secret, four at most. -/
  urandomRead : Except Errno (List Byte)
  urandomClose : Option Errno
  /-- The program break is an address of the process. -/
  sbrk : Except Errno { brk : Nat // brk < maxUserspaceAddr64 }

/-- The static arena with its flag and secret, and all that it works on. -/
structure Process where
  isInitialized : Bool
  secret : Nat
  world : World

/-- An `uint32_t` of which only the first bytes are written. -/
def readSecret (bytes : List Byte) (old : Nat) : Nat :=
  let byte := fun i => (bytes.getD i (BitVec.ofNat 8 (old / 2 ^ (8 * i)))).toNat
  byte 0 + byte 1 * 2 ^ 8 + byte 2 * 2 ^ 16 + byte 3 * 2 ^ 24

def platformGetRandom (sys : System) (old : Nat) : Except PlatformStatus Nat :=
  match sys.urandomOpen with
  | some errno => .error (getErrorFromErrno errno)
  | none =>
      match sys.urandomRead with
      | .error errno => .error (getErrorFromErrno errno)
      | .ok bytes =>
          match sys.urandomClose with
          | some errno => .error (getErrorFromErrno errno)
          | none => .ok (readSecret bytes old)

def platformGetProgramBreak (sys : System) : Except PlatformStatus Nat :=
  match sys.sbrk with
  | .error errno => .error (getErrorFromErrno errno)
  | .ok brk => .ok brk.val

/-- The secret of the arena; `se_error` ends the process. -/
def chooseSecret (sys : System) : Prog Process Nat := do
  match sys.seed with
  | some seed => return str2u32 sys.charSigned seed
  | none =>
      let p ← Prog.get
      match platformGetRandom sys p.secret with
      | .ok secret => return secret
      | .error _ => Prog.exit

/-- A function of the allocator in a process whose generators are seeded with its secret. -/
def onArena {α : Type} (sys : System) (call : Env → Prog World α) : Prog Process α := fun p =>
  Prog.zoom Process.world (fun w p => { p with world := w }) (call (sys.env.seeded p.secret)) p

/-- `arena_init` of the static arena. -/
def initArena (sys : System) : Prog Process Unit := do
  let secret ← chooseSecret sys
  match platformGetProgramBreak sys with
  | .error _ => Prog.exit
  | .ok brk => do
      Prog.modify fun p => { p with secret := secret, isInitialized := true }
      onArena sys fun env => arenaInit env brk

/-- The first lines of `malloc`, `calloc` and `realloc`. -/
def initOnce (sys : System) : Prog Process Unit := do
  let p ← Prog.get
  if p.isInitialized = false then initArena sys
  else return ()

def processMalloc (sys : System) (fuel size : Nat) : Prog Process (Option Nat) := do
  initOnce sys
  onArena sys fun env => seallocMalloc env fuel size

def processFree (sys : System) (ptr : Option Nat) : Prog Process Unit :=
  onArena sys fun env => seallocFree env ptr

def processCalloc (sys : System) (fuel nmemb size : Nat) : Prog Process (Option Nat) := do
  initOnce sys
  onArena sys fun env => seallocCalloc env fuel nmemb size

def processRealloc (sys : System) (fuel : Nat) (ptr : Option Nat) (size : Nat) :
    Prog Process (Option Nat) := do
  initOnce sys
  onArena sys fun env => seallocRealloc env fuel ptr size

def Call.process (sys : System) (fuel : Nat) : Call → Prog Process (Option Nat)
  | .malloc size => processMalloc sys fuel size
  | .calloc nmemb size => processCalloc sys fuel nmemb size
  | .realloc ptr newSize => processRealloc sys fuel ptr newSize
  | .free ptr => do
      processFree sys ptr
      return none

/-- A process with what it has allocated and what it has given up. -/
structure ProcessSession where
  process : Process
  live : List UserRegion
  dead : List UserRegion

def ProcessSession.session (s : ProcessSession) : Session := ⟨s.process.world, s.live, s.dead⟩

/-- A process at its start: the static arena is zero. -/
structure Process.Fresh (p : Process) : Prop where
  isInitialized : p.isInitialized = false
  secret : p.secret = 0
  chunkList : p.world.arena.chunkList = []
  hugeAllocList : p.world.arena.hugeAllocList = []
  granted : p.world.history.granted = p.world.maps
  findings : p.world.history.findings = []

/-- The states that a program can reach that passes only pointers it has to the exported
functions and writes only to what it has. -/
inductive Runs (sys : System) (start : Process) : ProcessSession → Prop
  | start : Runs sys start ⟨start, [], []⟩
  | call {s : ProcessSession} {fuel : Nat} {call : Call} {result : Option Nat} {p : Process}
      (before : Runs sys start s) (legal : call.Legal s.session)
      (run : call.process sys fuel s.process = .ok result p) :
      Runs sys start ⟨p, (s.session.after call result p.world).live,
        (s.session.after call result p.world).dead⟩
  | write {s : ProcessSession} {memory : Nat → Byte} (before : Runs sys start s)
      (inside : ∀ x, memory x ≠ s.process.world.memory x → ∃ region ∈ s.live, region.Holds x) :
      Runs sys start { s with
        process := { s.process with world := { s.process.world with memory := memory } } }

end Sealloc
