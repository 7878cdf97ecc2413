import Sealloc.Api
import Sealloc.Library.Liberal

/-! Steps that neither map nor unmap and leave the arena's entries alone, and the allocating calls
as sequences of such steps and of a few others. -/

namespace Sealloc

open Library

/-- The mappings are the same, and so are the chunks and the mappings that the arena keeps. -/
structure Quiet (w w' : World) : Prop where
  chunkList : w'.arena.chunkList = w.arena.chunkList
  hugeAllocList : w'.arena.hugeAllocList = w.arena.hugeAllocList
  internalAllocList : w'.arena.internalAllocList = w.arena.internalAllocList
  chunks : w'.chunks = w.chunks
  huges : w'.huges = w.huges
  maps : w'.maps = w.maps
  granted : w'.history.granted = w.history.granted

instance : IsPreorder World Quiet where
  refl _ := ⟨rfl, rfl, rfl, rfl, rfl, rfl, rfl⟩
  trans _ _ _ first second := ⟨second.chunkList.trans first.chunkList,
    second.hugeAllocList.trans first.hugeAllocList,
    second.internalAllocList.trans first.internalAllocList, second.chunks.trans first.chunks,
    second.huges.trans first.huges, second.maps.trans first.maps,
    second.granted.trans first.granted⟩

section Quiet

variable {env : Env}

theorem setProbe_quiet (which : ProbePtr) (addr : Nat) : Steps Quiet (setProbe which addr) := by
  apply Steps.modify
  intro w
  cases which <;> exact ⟨rfl, rfl, rfl, rfl, rfl, rfl, rfl⟩

theorem splitmix32_quiet : Steps Quiet (splitmix32 env) :=
  fun _ => wlp_of_ok rfl ⟨rfl, rfl, rfl, rfl, rfl, rfl, rfl⟩

theorem splitmix64_quiet : Steps Quiet (splitmix64 env) :=
  fun _ => wlp_of_ok rfl ⟨rfl, rfl, rfl, rfl, rfl, rfl, rfl⟩

theorem resetPtrStart_quiet (which : ProbePtr) : Steps Quiet (resetPtrStart env which) := by
  unfold resetPtrStart
  refine .bind splitmix64_quiet fun rand => .bind .get fun w => ?_
  exact .ite .crash (setProbe_quiet which _)

theorem setBrk_quiet (w : World) (brk : Nat) : Quiet w (w.setArena { w.arena with brk := brk }) :=
  ⟨rfl, rfl, rfl, rfl, rfl, rfl, rfl⟩

theorem resetChunkPtrStart_quiet : Steps Quiet (resetChunkPtrStart env) := by
  unfold resetChunkPtrStart
  refine .bind splitmix32_quiet fun rand => .bind (setProbe_quiet _ _) fun _ => ?_
  refine .bind .get fun w => ?_
  exact .ite (.bind splitmix64_quiet fun rand => .modify fun w => setBrk_quiet w _) (.pure _)

theorem skipMapping_quiet (which : ProbePtr) (map step : Nat) :
    Steps Quiet (skipMapping which map step) := by
  unfold skipMapping
  exact .bind .get fun w => .ite (setProbe_quiet which _) (.pure _)

theorem onIntAlloc_quiet {α : Type} (root : Nat) (call : Prog IntAlloc α) :
    Steps Quiet (onIntAlloc root call) := .zoom fun _ _ => ⟨rfl, rfl, rfl, rfl, rfl, rfl, rfl⟩

theorem internalAllocFrom_quiet (size : Nat) (roots : List Nat) :
    Steps Quiet (internalAllocFrom size roots) := by
  induction roots with
  | nil => exact .pure _
  | cons root rest ih =>
      unfold internalAllocFrom
      refine .bind (onIntAlloc_quiet root _) fun found => ?_
      cases found with
      | some alloc => exact .pure _
      | none => exact ih

theorem arenaInternalFree_quiet (ptr : Nat) : Steps Quiet (arenaInternalFree ptr) := by
  unfold arenaInternalFree
  refine .bind .get fun w => ?_
  cases w.arena.internalAllocList.find? _ with
  | none => exact .exit
  | some root => exact onIntAlloc_quiet _ _

theorem setBin_quiet {f : World → Bin} (b : Nat) :
    Steps Quiet (Prog.modify fun w => w.setBin b (f w)) :=
  .modify fun _ => ⟨rfl, rfl, rfl, rfl, rfl, rfl, rfl⟩

theorem note_quiet (finding : Finding) : Steps Quiet (note finding) :=
  .modify fun _ => ⟨rfl, rfl, rfl, rfl, rfl, rfl, rfl⟩

theorem setOrigin_quiet (ptr : Nat) (origin : Origin) : Steps Quiet (setOrigin ptr origin) :=
  .modify fun _ => ⟨rfl, rfl, rfl, rfl, rfl, rfl, rfl⟩

theorem setRunChunk_quiet (run chunk : Nat) : Steps Quiet (setRunChunk run chunk) :=
  .modify fun _ => ⟨rfl, rfl, rfl, rfl, rfl, rfl, rfl⟩

theorem memcpy_quiet (dst src len : Nat) : Steps Quiet (memcpy dst src len) :=
  .modify fun _ => ⟨rfl, rfl, rfl, rfl, rfl, rfl, rfl⟩

theorem memset0_quiet (dst len : Nat) : Steps Quiet (memset0 dst len) :=
  .modify fun _ => ⟨rfl, rfl, rfl, rfl, rfl, rfl, rfl⟩

theorem arenaGetBinByRegSize_quiet (regSize : Nat) :
    Steps Quiet (arenaGetBinByRegSize regSize) := by
  unfold arenaGetBinByRegSize binInit
  exact .bind .get fun w => .ite (.bind (.ite .crash (setBin_quiet _)) fun _ => .pure _) (.pure _)

theorem binGetRunForAllocation_quiet (b : Nat) :
    Steps Quiet (binGetRunForAllocation env b) := by
  unfold binGetRunForAllocation
  refine .bind splitmix32_quiet fun rand => .bind .get fun w => .ite .crash ?_
  refine .bind (note_quiet _) fun _ => ?_
  cases (w.arena.bins b).runListActive[rand % (w.arena.bins b).runListActiveCnt]? with
  | none => exact .exit
  | some run => exact .bind (setBin_quiet b) fun _ => .pure _

theorem binDeleteRun_quiet (b run : Nat) : Steps Quiet (binDeleteRun b run) := by
  unfold binDeleteRun
  exact .bind .get fun w => .bind (note_quiet _) fun _ => setBin_quiet b

theorem allocateFromRun_quiet (b run : Nat) : Steps Quiet (allocateFromRun b run) := by
  unfold allocateFromRun
  refine .bind .get fun w => .ite .crash (.bind (.modify fun w => ?_) fun _ => ?_)
  · exact ⟨rfl, rfl, rfl, rfl, rfl, rfl, rfl⟩
  · refine .bind (setOrigin_quiet _ _) fun _ => .ite ?_ (.pure _)
    exact .bind (setBin_quiet b) fun _ => .pure _

theorem locateMetadataForPtr_quiet (ptr : Nat) : Steps Quiet (locateMetadataForPtr ptr) := by
  unfold locateMetadataForPtr
  refine .bind .get fun w => ?_
  cases locateRun w.chunks ptr w.arena.chunkList with
  | none =>
      cases arenaFindHugeMapping w ptr with
      | none => exact .pure _
      | some huge => exact .pure _
  | some place =>
      exact .bind (arenaGetBinByRegSize_quiet _) fun b => .bind .get fun w => .pure _

end Quiet

/-- The steps of the allocating calls that need not be quiet. -/
structure Allocates (env : Env) (fuel : Nat) (R : World → World → Prop) : Prop where
  quiet : ∀ {w w'}, Quiet w w' → R w w'
  internal : ∀ size, Steps R (arenaInternalAlloc env fuel size)
  chunk : Steps R (arenaAllocateChunk env fuel)
  run : ∀ chunk runSize regSize, Steps R (onChunkAllocateRun env chunk runSize regSize)
  huge : ∀ len, Steps R (arenaAllocateHugeMapping env fuel len)

section Allocates

variable {env : Env} {fuel : Nat} {R : World → World → Prop} [IsPreorder World R]

theorem arenaInitRun_steps (allocates : Allocates env fuel R) (b chunk runPtr : Nat) :
    Steps R (arenaInitRun env fuel b chunk runPtr) := by
  unfold arenaInitRun
  refine .bind .get fun w => .bind (allocates.internal _) fun found => ?_
  cases found with
  | none => exact .crash
  | some run =>
      refine .ite .crash (.bind (.modify fun w => allocates.quiet ?_) fun _ => ?_)
      · exact ⟨rfl, rfl, rfl, rfl, rfl, rfl, rfl⟩
      · exact .bind ((setRunChunk_quiet run chunk).mono allocates.quiet) fun _ => .pure _

theorem chunkAllocateFrom_steps (allocates : Allocates env fuel R) (runSize regSize : Nat)
    (chunks : List Nat) : Steps R (chunkAllocateFrom env runSize regSize chunks) := by
  induction chunks with
  | nil => exact .pure _
  | cons chunk rest ih =>
      unfold chunkAllocateFrom
      refine .bind (allocates.run chunk runSize regSize) fun found => ?_
      cases found with
      | some runPtr => exact .pure _
      | none => exact ih

theorem arenaAllocateRun_steps (allocates : Allocates env fuel R) (b : Nat) :
    Steps R (arenaAllocateRun env fuel b) := by
  unfold arenaAllocateRun
  refine .bind .get fun w => .bind (chunkAllocateFrom_steps allocates _ _ _) fun found => ?_
  cases found with
  | some place => exact arenaInitRun_steps allocates b _ _
  | none =>
      exact .bind allocates.chunk fun chunk => .bind (allocates.run chunk _ _) fun runPtr =>
        arenaInitRun_steps allocates b _ _

theorem arenaSupplyRuns_steps (allocates : Allocates env fuel R) (b : Nat) :
    Steps R (arenaSupplyRuns env fuel b) := by
  have supply : ∀ rounds, Steps R (supplyRuns env fuel b rounds) := by
    intro rounds
    induction rounds with
    | zero => exact .pure _
    | succ rounds ih =>
        unfold supplyRuns
        exact .bind (arenaAllocateRun_steps allocates b) fun run =>
          .bind ((setBin_quiet b).mono allocates.quiet) fun _ => ih
  unfold arenaSupplyRuns
  exact .bind .get fun w => .ite .crash (supply _)

theorem seallocAllocateWithBin_steps (allocates : Allocates env fuel R) (b : Nat) :
    Steps R (seallocAllocateWithBin env fuel b) := by
  have draw : Steps Quiet (do
      let w ← Prog.get
      note (.minimumRegions b (w.arena.bins b).availRegs)
      let run ← binGetRunForAllocation env b
      allocateFromRun b run) :=
    .bind .get fun w => .bind (note_quiet _) fun _ => .bind (binGetRunForAllocation_quiet b)
      fun run => allocateFromRun_quiet b run
  unfold seallocAllocateWithBin
  refine .bind .get fun w => .ite (.bind (arenaAllocateRun_steps allocates b) fun run => ?_)
    (draw.mono allocates.quiet)
  exact (Steps.bind (setBin_quiet b) fun _ => draw).mono allocates.quiet

theorem allocateRegular_steps (allocates : Allocates env fuel R) (size : Nat) :
    Steps R (allocateRegular env fuel size) := by
  unfold allocateRegular
  refine .bind ((arenaGetBinByRegSize_quiet _).mono allocates.quiet) fun b => .bind .get fun w => ?_
  refine .ite (.bind (arenaSupplyRuns_steps allocates b) fun _ => ?_) ?_
  · exact seallocAllocateWithBin_steps allocates b
  · exact seallocAllocateWithBin_steps allocates b

theorem seallocMalloc_steps (allocates : Allocates env fuel R) (size : Nat) :
    Steps R (seallocMalloc env fuel size) := by
  unfold seallocMalloc
  refine .ite ?_ (.bind (allocateRegular_steps allocates _) fun ptr => .pure _)
  exact .bind (allocates.huge _) fun huge => .bind .get fun w => .pure _

theorem seallocCalloc_steps (allocates : Allocates env fuel R) (nmemb size : Nat) :
    Steps R (seallocCalloc env fuel nmemb size) := by
  unfold seallocCalloc
  refine .ite (.pure _) (.bind (seallocMalloc_steps allocates _) fun found => ?_)
  cases found with
  | none => exact .pure _
  | some ptr => exact .bind ((memset0_quiet ptr _).mono allocates.quiet) fun _ => .pure _

end Allocates

end Sealloc
