import Sealloc.Bin

/-! The arena of `arena.c`: metadata blocks, chunks, runs, bins and huge mappings. -/

namespace Sealloc

open Library

/-- The three pointers of the arena from which it probes for memory. -/
inductive ProbePtr where
  | chunkAlloc
  | hugeAlloc
  | internalAlloc
  deriving DecidableEq, Repr

def Arena.probe (arena : Arena) : ProbePtr → Nat
  | .chunkAlloc => arena.chunkAllocPtr
  | .hugeAlloc => arena.hugeAllocPtr
  | .internalAlloc => arena.internalAllocPtr

def Arena.setProbe (arena : Arena) : ProbePtr → Nat → Arena
  | .chunkAlloc, addr => { arena with chunkAllocPtr := addr }
  | .hugeAlloc, addr => { arena with hugeAllocPtr := addr }
  | .internalAlloc, addr => { arena with internalAllocPtr := addr }

def setProbe (which : ProbePtr) (addr : Nat) : Prog World Unit :=
  Prog.modify fun w => w.setArena (w.arena.setProbe which addr)

/-- `reset_ia_ptr_start` and `reset_huge_alloc_ptr_start`, which differ in the pointer they
set: a random page above the program break. -/
def resetPtrStart (env : Env) (which : ProbePtr) : Prog World Unit := do
  let rand ← splitmix64 env
  let w ← Prog.get
  let range := sub64 maxUserspaceAddr64 w.arena.brk
  if range = 0 then Prog.crash
  else setProbe which (alignupPage (u64 (w.arena.brk + rand % range)))

def resetIaPtrStart (env : Env) : Prog World Unit := resetPtrStart env .internalAlloc

def resetHugeAllocPtrStart (env : Env) : Prog World Unit := resetPtrStart env .hugeAlloc

def resetChunkPtrStart (env : Env) : Prog World Unit := do
  let rand ← splitmix32 env
  setProbe .chunkAlloc (alignupPage32 rand)
  let w ← Prog.get
  if w.arena.brk ≤ mask44Bits then
    let rand ← splitmix64 env
    Prog.modify fun w => w.setArena { w.arena with brk := alignupPage (rand &&& mask45Bits) }
  else return ()

/-- The loop of `arena_morecore`; `inner` bounds the probes of one `platform_map_probe`. -/
def arenaMorecoreLoop (env : Env) (inner : Nat) (which : ProbePtr) (reset : Prog World Unit)
    (size : Nat) (ceil : Arena → Nat) : Nat → Prog World Nat
  | 0 => Prog.outOfFuel
  | fuel + 1 => do
      let w ← Prog.get
      let (code, probe) ← platformMapProbe env inner (w.arena.probe which) (ceil w.arena) size
      setProbe which probe
      match code with
      | .ok => return probe
      | .ceilingHit => do
          reset
          arenaMorecoreLoop env inner which reset size ceil fuel
      | .differentAddress => do
          reset
          return probe
      | _ => arenaMorecoreLoop env inner which reset size ceil fuel

def arenaMorecore (env : Env) (fuel : Nat) (which : ProbePtr) (reset : Prog World Unit)
    (size : Nat) (ceil : Arena → Nat) : Prog World Nat :=
  arenaMorecoreLoop env fuel which reset size ceil fuel

/-- The step past a mapping that its caller makes when the probe pointer stands on it. -/
def skipMapping (which : ProbePtr) (map step : Nat) : Prog World Unit := do
  let w ← Prog.get
  if map = w.arena.probe which then setProbe which (u64 (map + step))
  else return ()

/-- `arena_init` with the program break `brk`; the bins are cleared. -/
def arenaInit (env : Env) (brk : Nat) : Prog World Unit := do
  Prog.modify fun w =>
    w.setArena { w.arena with
      brk := brk
      internalAllocList := []
      chunkList := []
      hugeAllocList := [] }
  resetChunkPtrStart env
  resetIaPtrStart env
  resetHugeAllocPtrStart env
  Prog.modify fun w => w.setArena { w.arena with bins := fun _ => Bin.zero }

/-- A call of the internal allocator at `root`. -/
def onIntAlloc {α : Type} (root : Nat) (call : Prog IntAlloc α) : Prog World α :=
  Prog.zoom (fun w => w.intAllocs root) (fun ia w => w.setIntAlloc root ia) call

/-- The loop of `arena_internal_alloc` over the mappings. -/
def internalAllocFrom (size : Nat) : List Nat → Prog World (Option Nat)
  | [] => return none
  | root :: rest => do
      match ← onIntAlloc root (internalAlloc root size) with
      | some alloc => return some alloc
      | none => internalAllocFrom size rest

def arenaInternalAlloc (env : Env) (fuel size : Nat) : Prog World (Option Nat) := do
  let w ← Prog.get
  match ← internalAllocFrom size w.arena.internalAllocList with
  | some alloc => return some alloc
  | none =>
      let map ← arenaMorecore env fuel .internalAlloc (resetIaPtrStart env)
        (alignupPage intAllocSizeof) fun _ => maxUserspaceAddr64
      skipMapping .internalAlloc map (alignupPage intAllocSizeof)
      -- a fresh mapping reads as zeros
      Prog.modify fun w => w.setIntAlloc map (internalAllocatorInit ⟨0, fun _ => 0#8⟩)
      Prog.modify fun w =>
        w.setArena { w.arena with internalAllocList := map :: w.arena.internalAllocList }
      onIntAlloc map (internalAlloc map size)

def arenaInternalFree (ptr : Nat) : Prog World Unit := do
  let w ← Prog.get
  match w.arena.internalAllocList.find? fun root =>
      intAllocMemory root ≤ ptr ∧ ptr ≤ intAllocMemory root + internalAllocChunkSizeBytes with
  | none => Prog.exit
  | some root => onIntAlloc root (internalFree root ptr)

/-- `chunk_allocate_run` on the chunk at `chunk`. -/
def onChunkAllocateRun (env : Env) (chunk runSize regSize : Nat) : Prog World (Option Nat) :=
  fun w =>
    let out := chunkAllocateRun .wrapping (fun i => u32 (env.rand32 (w.rand32Draws + i)))
      (w.chunks chunk) runSize regSize
    .ok out.result ((w.draw32 out.draws).setChunk chunk out.chunk)

/-- `chunk_deallocate_run` on the chunk at `chunk`. -/
def onChunkDeallocateRun (env : Env) (chunk runPtr : Nat) : Prog World Bool := do
  let w ← Prog.get
  match chunkDeallocateRun (w.chunks chunk) runPtr with
  | none => Prog.exit
  | some out =>
      platformUnmap env out.unmapPtr out.unmapSize
      Prog.modify fun w => w.setChunk chunk out.chunk
      return out.whole

def arenaAllocateChunk (env : Env) (fuel : Nat) : Prog World Nat := do
  let chunkMeta ← arenaInternalAlloc env fuel chunkSizeof
  let ptr ← arenaMorecore env fuel .chunkAlloc (resetChunkPtrStart env) chunkSizeBytes (·.brk)
  skipMapping .chunkAlloc ptr (chunkSizeBytes + pageSize)
  match chunkMeta with
  | none => Prog.crash
  | some chunk =>
      Prog.modify fun w => w.setChunk chunk (chunkInit .wrapping (env.staleChunk chunk) ptr)
      Prog.modify fun w => w.setArena { w.arena with chunkList := chunk :: w.arena.chunkList }
      return chunk

def arenaDeallocateChunk (chunk : Nat) : Prog World Unit := do
  Prog.modify fun w => w.setArena { w.arena with chunkList := w.arena.chunkList.erase chunk }
  arenaInternalFree chunk

/-- The bytes of the metadata block of a run of the bin. -/
def Bin.runMetaSize (bin : Bin) : Nat := runSizeof + bits2bytesCeil bin.regMaskSizeBits

def setRunChunk (run chunk : Nat) : Prog World Unit :=
  Prog.modify fun w =>
    w.record { w.history with runChunk := Function.update w.history.runChunk run chunk }

/-- The metadata block of a run that was just allocated at `runPtr`. -/
def arenaInitRun (env : Env) (fuel b chunk runPtr : Nat) : Prog World Nat := do
  let w ← Prog.get
  let bin := w.arena.bins b
  match ← arenaInternalAlloc env fuel bin.runMetaSize with
  | none => Prog.crash
  | some run =>
      if bin.elems = 0 then Prog.crash
      else
        Prog.modify fun w =>
          (w.draw32 (generatorDraws bin.regSize + 1)).setRun run bin.runMetaSize
            (runInit (fun i => u32 (env.rand32 (w.rand32Draws + i))) (env.staleRun run) bin runPtr)
        setRunChunk run chunk
        return run

/-- The loop of `arena_allocate_run` over the chunks: the first that has room, and the run. -/
def chunkAllocateFrom (env : Env) (runSize regSize : Nat) :
    List Nat → Prog World (Option (Nat × Nat))
  | [] => return none
  | chunk :: rest => do
      match ← onChunkAllocateRun env chunk runSize regSize with
      | some runPtr => return some (chunk, runPtr)
      | none => chunkAllocateFrom env runSize regSize rest

def arenaAllocateRun (env : Env) (fuel b : Nat) : Prog World Nat := do
  let w ← Prog.get
  let bin := w.arena.bins b
  let runSize := bin.runSizePages * pageSize
  match ← chunkAllocateFrom env runSize bin.regSize w.arena.chunkList with
  | some (chunk, runPtr) => arenaInitRun env fuel b chunk runPtr
  | none =>
      let chunk ← arenaAllocateChunk env fuel
      let runPtr ← onChunkAllocateRun env chunk runSize bin.regSize
      arenaInitRun env fuel b chunk (runPtr.getD 0)

/-- The loop of `arena_supply_runs`. -/
def supplyRuns (env : Env) (fuel b : Nat) : Nat → Prog World Unit
  | 0 => return ()
  | rounds + 1 => do
      let run ← arenaAllocateRun env fuel b
      binAddRun b run
      supplyRuns env fuel b rounds

/-- `arena_supply_runs`, whose `arena_allocate_run` never returns null. -/
def arenaSupplyRuns (env : Env) (fuel b : Nat) : Prog World Unit := do
  let w ← Prog.get
  let bin := w.arena.bins b
  if bin.elems = 0 then Prog.crash
  else supplyRuns env fuel b (ceilDiv (binMinimumRegions - bin.availRegs) bin.elems)

/-- `arena_get_bin_by_reg_size`: the index of the bin, initialised if it was not. -/
def arenaGetBinByRegSize (regSize : Nat) : Prog World Nat := do
  let w ← Prog.get
  if (w.arena.bins (binIndex regSize)).regSize = 0 then
    binInit (binIndex regSize) regSize
    return binIndex regSize
  else return binIndex regSize

/-- `ll_find` over the huge mappings. -/
def arenaFindHugeMapping (w : World) (key : Nat) : Option Nat :=
  w.arena.hugeAllocList.find? fun huge => (w.huges huge).key = key

def setOrigin (ptr : Nat) (origin : Origin) : Prog World Unit :=
  Prog.modify fun w =>
    w.record { w.history with origin := Function.update w.history.origin ptr (some origin) }

def arenaAllocateHugeMapping (env : Env) (fuel len : Nat) : Prog World Nat := do
  match ← arenaInternalAlloc env fuel hugeChunkSizeof with
  | none => Prog.crash
  | some huge =>
      let map ← arenaMorecore env fuel .hugeAlloc (resetHugeAllocPtrStart env) len
        fun _ => maxUserspaceAddr64
      Prog.modify fun w => w.setHuge huge ⟨map, len⟩
      skipMapping .hugeAlloc map (u64 (len + pageSize))
      Prog.modify fun w =>
        w.setArena { w.arena with hugeAllocList := huge :: w.arena.hugeAllocList }
      setOrigin map (.huge huge)
      return huge

def arenaReallocateHugeMapping (env : Env) (fuel huge newSize : Nat) : Prog World Unit := do
  let map ← arenaMorecore env fuel .hugeAlloc (resetHugeAllocPtrStart env) newSize
    fun _ => maxUserspaceAddr64
  skipMapping .hugeAlloc map (u64 (newSize + pageSize))
  let w ← Prog.get
  let old := w.huges huge
  memcpy map old.key (if old.len > newSize then newSize else old.len)
  platformUnmap env old.key old.len
  Prog.modify fun w => w.setHuge huge ⟨map, newSize⟩
  setOrigin map (.huge huge)

def arenaDeallocateHugeMapping (env : Env) (huge : Nat) : Prog World Unit := do
  let w ← Prog.get
  platformUnmap env (w.huges huge).key (w.huges huge).len
  Prog.modify fun w =>
    w.setArena { w.arena with hugeAllocList := w.arena.hugeAllocList.erase huge }
  arenaInternalFree huge

end Sealloc
