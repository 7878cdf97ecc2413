import Sealloc.Library.Crumbs
import Sealloc.Generator

/-! The run of `run.c`: equal regions handed out along a generator of their index group. -/

namespace Sealloc

open Library

def runSizeSmallPages : Nat := 16384 / pageSize
def runSizeMediumPages : Nat := 16384 / pageSize

/-- `bin_t`; its two lists hold the addresses of `run_t` blocks, first entry first. -/
structure Bin where
  runListInactive : List Nat
  runListActive : List Nat
  runListActiveCnt : Nat
  availRegs : Nat
  regSize : Nat
  runSizePages : Nat
  regMaskSizeBits : Nat
  deriving DecidableEq, Repr

/-- The number of regions of a run of the bin. -/
def Bin.elems (bin : Bin) : Nat := bin.regMaskSizeBits / 2

inductive BState where
  | free
  | alloc
  | allocFree
  | invalid
  deriving DecidableEq, Repr

def BState.code : BState → Fin 4
  | free => 0
  | alloc => 1
  | allocFree => 2
  | invalid => 3

/-- The fourth value of two bits has no name in `bstate_t`. -/
def BState.ofByte (byte : Byte) : BState :=
  if byte = 0#8 then free
  else if byte = 1#8 then alloc
  else if byte = 2#8 then allocFree
  else invalid

def getBitmapItem (mem : Nat → Byte) (idx : Nat) : BState := BState.ofByte (getCrumb mem idx)

def setBitmapItem (mem : Nat → Byte) (idx : Nat) (state : BState) : Nat → Byte :=
  setCrumb mem idx (BitVec.ofNat 8 state.code.val)

/-- `run_t` without the links of its list entry. -/
structure Run where
  key : Nat
  navail : Nat
  nfreed : Nat
  gen : Nat
  currentIdx : Nat
  regBitmap : Nat → Byte

/-- `sizeof(run_t)`. -/
def runSizeof : Nat := 32

/-- How many random values `run_init` draws for the generator. -/
def generatorDraws (regSize : Nat) : Nat :=
  if isSizeSmall regSize ∨ isSizeMedium regSize then 1 else 0

/-- `run_init` on a block with the contents `run`; `rand` are the random values it draws. -/
def runInit (rand : Nat → Nat) (run : Run) (bin : Bin) (heap : Nat) : Run where
  key := heap
  navail := u16 bin.elems
  nfreed := 0
  gen := u16 (pickGenerator bin.regSize (rand 0))
  currentIdx := u16 (rand (generatorDraws bin.regSize) % bin.elems)
  regBitmap := fun i => if i < bits2bytesCeil bin.regMaskSizeBits then 0#8 else run.regBitmap i

/-- `run_allocate`: the address of the region and the run afterwards. -/
def runAllocate (run : Run) (bin : Bin) : Nat × Run :=
  let idx := u16 ((run.gen + run.currentIdx) % bin.elems)
  (u64 (run.key + u32 (idx * bin.regSize)),
    { run with
      currentIdx := idx
      regBitmap := setBitmapItem run.regBitmap idx .alloc
      navail := u16 (run.navail + (2 ^ 16 - 1)) })

/-- `run_validate_ptr` of a pointer into the run; `none` stands for `SIZE_MAX`. -/
def runValidatePtr (run : Run) (bin : Bin) (ptr : Nat) : Option Nat :=
  let relPtr := ptr - run.key
  if relPtr % bin.regSize ≠ 0 then none
  else if getBitmapItem run.regBitmap (relPtr / bin.regSize) ≠ .alloc then none
  else some (relPtr / bin.regSize)

/-- The stores of `run_deallocate` for a region that passed the check. -/
def runMarkFreed (run : Run) (idx : Nat) : Run :=
  { run with
    regBitmap := setBitmapItem run.regBitmap idx .allocFree
    nfreed := u16 (run.nfreed + 1) }

/-- `run_deallocate`: the run afterwards, or `none` where it returns false. -/
def runDeallocate (run : Run) (bin : Bin) (ptr : Nat) : Option Run :=
  (runValidatePtr run bin ptr).map (runMarkFreed run)

def runIsDepleted (run : Run) : Prop := run.navail = 0

def runIsFreeable (run : Run) (bin : Bin) : Prop := run.nfreed = bin.elems

instance (run : Run) : Decidable (runIsDepleted run) := inferInstanceAs (Decidable (_ = _))
instance (run : Run) (bin : Bin) : Decidable (runIsFreeable run bin) :=
  inferInstanceAs (Decidable (_ = _))

end Sealloc
