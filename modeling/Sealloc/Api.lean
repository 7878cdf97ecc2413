import Sealloc.Arena

/-! The allocation functions of `sealloc.c`. A null pointer is `none`. -/

namespace Sealloc

open Library

/-- The end of `sealloc_allocate_with_bin`: the next region of the picked run. -/
def allocateFromRun (b run : Nat) : Prog World Nat := do
  let w ← Prog.get
  let bin := w.arena.bins b
  if bin.elems = 0 then Prog.crash
  else
    let out := runAllocate (w.runs run) bin
    Prog.modify fun w => w.setRun run bin.runMetaSize out.2
    setOrigin out.1 (.regular (w.history.runChunk run) b run)
    if runIsDepleted out.2 then
      binRetireRun b run
      return out.1
    else return out.1

/-- `arena_allocate_run` never returns null, so neither does this. -/
def seallocAllocateWithBin (env : Env) (fuel b : Nat) : Prog World Nat := do
  let w ← Prog.get
  if (w.arena.bins b).availRegs < binMinimumRegions then
    let run ← arenaAllocateRun env fuel b
    binAddRun b run
  let w ← Prog.get
  note (.minimumRegions b (w.arena.bins b).availRegs)
  let run ← binGetRunForAllocation env b
  allocateFromRun b run

/-- The part that `sealloc_malloc` and `sealloc_realloc` share: a region of a size that is
not huge. -/
def allocateRegular (env : Env) (fuel size : Nat) : Prog World Nat := do
  let b ← arenaGetBinByRegSize (alignupSize size)
  let w ← Prog.get
  if (w.arena.bins b).availRegs = 0 then
    arenaSupplyRuns env fuel b
  seallocAllocateWithBin env fuel b

def seallocMalloc (env : Env) (fuel size : Nat) : Prog World (Option Nat) := do
  let size := if size = 0 then smallSizeMinRegion else size
  if isSizeHuge size then
    let huge ← arenaAllocateHugeMapping env fuel (alignupPage size)
    let w ← Prog.get
    return some (w.huges huge).key
  else
    let ptr ← allocateRegular env fuel size
    return some ptr

inductive Metadata where
  | invalid
  | regular (chunk bin : Nat) (run : Option Nat)
  | huge (huge : Nat)
  deriving DecidableEq, Repr

/-- The search of `locate_metadata_for_ptr` over the chunks: `arena_get_chunk_from_ptr` passes
over those whose range does not hold `ptr`, and those that know no run there are skipped. -/
def locateRun (chunks : Nat → Chunk) (ptr : Nat) : List Nat → Option (Nat × RunInfo)
  | [] => none
  | chunk :: rest =>
      if (chunks chunk).key ≤ ptr ∧ ptr < (chunks chunk).key + chunkSizeBytes then
        match chunkGetRunPtr (chunks chunk) ptr with
        | some info => some (chunk, info)
        | none => locateRun chunks ptr rest
      else locateRun chunks ptr rest

def locateMetadataForPtr (ptr : Nat) : Prog World Metadata := do
  let w ← Prog.get
  match locateRun w.chunks ptr w.arena.chunkList with
  | none =>
      match arenaFindHugeMapping w ptr with
      | none => return .invalid
      | some huge => return .huge huge
  | some (chunk, info) =>
      let b ← arenaGetBinByRegSize (if info.regSize > 0 then info.regSize else info.runSize)
      let w ← Prog.get
      return .regular chunk b (binGetRunByAddr w b info.runPtr)

/-- What `sealloc_free_with_metadata` does with a run all of whose regions are freed. -/
def deleteRun (env : Env) (chunk b run : Nat) : Prog World Unit := do
  let w ← Prog.get
  binDeleteRun b run
  let whole ← onChunkDeallocateRun env chunk (w.runs run).key
  if whole then
    arenaDeallocateChunk chunk
    arenaInternalFree run
  else arenaInternalFree run

def seallocFreeWithMetadata (env : Env) (chunk b run ptr : Nat) : Prog World Unit := do
  let w ← Prog.get
  let bin := w.arena.bins b
  if bin.regSize = 0 then Prog.crash
  else
    match runDeallocate (w.runs run) bin ptr with
    | none => Prog.abort
    | some freed =>
        Prog.modify fun w => w.setRun run bin.runMetaSize freed
        if runIsFreeable freed bin then deleteRun env chunk b run
        else return ()

def seallocFree (env : Env) (ptr : Option Nat) : Prog World Unit :=
  match ptr with
  | none => return ()
  | some ptr => do
      match ← locateMetadataForPtr ptr with
      | .invalid => Prog.abort
      | .huge huge => arenaDeallocateHugeMapping env huge
      | .regular _ _ none => Prog.crash
      | .regular chunk b (some run) => seallocFreeWithMetadata env chunk b run ptr

/-- `realloc_huge`, whose caller has rounded `newSize` up to whole pages. -/
def reallocHuge (env : Env) (fuel huge newSize : Nat) : Prog World (Option Nat) := do
  if isSizeHuge newSize then
    arenaReallocateHugeMapping env fuel huge newSize
    let w ← Prog.get
    return some (w.huges huge).key
  else
    match ← seallocMalloc env fuel newSize with
    | none => return none
    | some newReg =>
        let w ← Prog.get
        memcpy newReg (w.huges huge).key newSize
        arenaDeallocateHugeMapping env huge
        return some newReg

/-- `sealloc_realloc` of a region of a run that has passed `run_validate_ptr`. -/
def reallocRegular (env : Env) (fuel chunk b run ptr newSize : Nat) :
    Prog World (Option Nat) := do
  let old ← Prog.get
  let oldSize := (old.arena.bins b).regSize
  if isSizeHuge newSize then
    let huge ← arenaAllocateHugeMapping env fuel (alignupPage newSize)
    let w ← Prog.get
    memcpy (w.huges huge).key ptr oldSize
    seallocFreeWithMetadata env chunk b run ptr
    let w ← Prog.get
    return some (w.huges huge).key
  else
    let newPtr ← allocateRegular env fuel newSize
    let w ← Prog.get
    let newRegSize := (w.arena.bins (binIndex (alignupSize newSize))).regSize
    memcpy newPtr ptr (if newRegSize > oldSize then oldSize else newRegSize)
    seallocFreeWithMetadata env chunk b run ptr
    return some newPtr

def seallocRealloc (env : Env) (fuel : Nat) (ptr : Option Nat) (newSize : Nat) :
    Prog World (Option Nat) :=
  match ptr with
  | none => seallocMalloc env fuel newSize
  | some ptr => do
      match ← locateMetadataForPtr ptr with
      | .invalid => Prog.abort
      | .huge huge => reallocHuge env fuel huge (alignupPage newSize)
      | .regular _ _ none => Prog.crash
      | .regular chunk b (some run) => do
          let w ← Prog.get
          if (w.arena.bins b).regSize = 0 then Prog.crash
          else if runValidatePtr (w.runs run) (w.arena.bins b) ptr = none then Prog.abort
          else reallocRegular env fuel chunk b run ptr newSize

def seallocCalloc (env : Env) (fuel nmemb size : Nat) : Prog World (Option Nat) :=
  if nmemb = 0 ∨ size = 0 then return none
  else do
    match ← seallocMalloc env fuel (u64 (nmemb * size)) with
    | none => return none
    | some ptr =>
        memset0 ptr (u64 (nmemb * size))
        return some ptr

end Sealloc
