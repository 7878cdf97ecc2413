import Sealloc.Platform

/-! The bins of `bin.c`, each of which keeps the runs of one size class. -/

namespace Sealloc

open Library

def binMinimumRegions : Nat := 256

/-- A bin of the arena before `bin_init`. -/
def Bin.zero : Bin := ⟨[], [], 0, 0, 0, 0, 0⟩

/-- `bin_init` for a region size that is not zero. -/
def Bin.init (regSize : Nat) : Bin :=
  let pages :=
    if isSizeSmall regSize then runSizeSmallPages
    else if isSizeMedium regSize then runSizeMediumPages
    else regSize / pageSize
  { runListInactive := []
    runListActive := []
    runListActiveCnt := 0
    availRegs := 0
    regSize := regSize
    runSizePages := pages
    regMaskSizeBits := u32 (u32 (pages * pageSize) / regSize * 2) }

/-- `bin_init`, which divides by the region size. -/
def binInit (b regSize : Nat) : Prog World Unit :=
  if regSize = 0 then Prog.crash
  else Prog.modify fun w => w.setBin b (Bin.init regSize)

def Bin.addRun (bin : Bin) (run navail : Nat) : Bin :=
  { bin with
    availRegs := u32 (bin.availRegs + navail)
    runListActiveCnt := u32 (bin.runListActiveCnt + 1)
    runListActive := run :: bin.runListActive }

def binAddRun (b run : Nat) : Prog World Unit :=
  Prog.modify fun w => w.setBin b ((w.arena.bins b).addRun run (w.runs run).navail)

def Bin.deleteRun (bin : Bin) (run : Nat) : Bin :=
  { bin with runListInactive := bin.runListInactive.erase run }

def binDeleteRun (b run : Nat) : Prog World Unit := do
  let w ← Prog.get
  note (.deleted b run (decide (run ∈ (w.arena.bins b).runListInactive)))
  Prog.modify fun w => w.setBin b ((w.arena.bins b).deleteRun run)

def Bin.takeRegion (bin : Bin) : Bin :=
  { bin with availRegs := u32 (bin.availRegs + (2 ^ 32 - 1)) }

/-- `bin_get_run_for_allocation`, which draws modulo the length of the active list. -/
def binGetRunForAllocation (env : Env) (b : Nat) : Prog World Nat := do
  let rand ← splitmix32 env
  let w ← Prog.get
  let bin := w.arena.bins b
  if bin.runListActiveCnt = 0 then Prog.crash
  else
    note (.picked b (rand % bin.runListActiveCnt) bin.runListActive.length)
    match bin.runListActive[rand % bin.runListActiveCnt]? with
    | none => Prog.exit
    | some run =>
        Prog.modify fun w => w.setBin b (w.arena.bins b).takeRegion
        return run

def Bin.retireRun (bin : Bin) (run : Nat) : Bin :=
  { bin with
    runListActive := bin.runListActive.erase run
    runListInactive := run :: bin.runListInactive
    runListActiveCnt := u32 (bin.runListActiveCnt + (2 ^ 32 - 1)) }

def binRetireRun (b run : Nat) : Prog World Unit :=
  Prog.modify fun w => w.setBin b ((w.arena.bins b).retireRun run)

/-- `ll_find` over a list of runs. -/
def findRun (runs : Nat → Run) (key : Nat) (entries : List Nat) : Option Nat :=
  entries.find? fun run => (runs run).key = key

def binGetRunByAddr (w : World) (b runPtr : Nat) : Option Nat :=
  match findRun w.runs runPtr (w.arena.bins b).runListActive with
  | none => findRun w.runs runPtr (w.arena.bins b).runListInactive
  | some run => some run

end Sealloc
