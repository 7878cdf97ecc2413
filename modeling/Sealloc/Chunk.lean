import Sealloc.Library.Crumbs
import Sealloc.Utils

/-! The chunk of `chunk.c`: 32 MiB from which runs are allocated, each part at most once.

Offsets and counters are `unsigned short` values. The functions that compute with them
take that arithmetic as a parameter; the source is the instance `Short.wrapping`. -/

namespace Sealloc

open Library

def chunkSizeBytes : Nat := 33554432
def chunkLeastRegionSizeBytes : Nat := pageSize * 4
def chunkNoNodesLastLayer : Nat := chunkSizeBytes / chunkLeastRegionSizeBytes
def chunkNoNodes : Nat := chunkNoNodesLastLayer + (chunkNoNodesLastLayer - 1)
def chunkBuddyTreeDepth : Nat := 11
def regMarkBadValue : Nat := 65535
def randomLookupTresholdPercentage : Nat := 25
def randomLookupTries : Nat := 4

/-- Arithmetic on stored 16-bit values. -/
structure Short where
  ofNat : Nat → Nat
  sub : Nat → Nat → Nat

/-- `unsigned short`. -/
def Short.wrapping : Short where
  ofNat := u16
  sub a b := u16 (a + (2 ^ 16 - b % 2 ^ 16))

/-- The same operations without a bound on the values. -/
def Short.unbounded : Short where
  ofNat n := n
  sub a b := a - b

inductive ChunkNode where
  | free
  | used
  | depleted
  | unmapped
  deriving DecidableEq, Repr

def ChunkNode.code : ChunkNode → Fin 4
  | free => 0
  | used => 1
  | depleted => 2
  | unmapped => 3

def ChunkNode.ofByte (byte : Byte) : ChunkNode :=
  if byte = 0#8 then free
  else if byte = 1#8 then used
  else if byte = 2#8 then depleted
  else unmapped

structure JumpNode where
  prev : Nat
  next : Nat
  deriving DecidableEq, Repr

/-- `chunk_t` without the links of its list entry. -/
structure Chunk where
  key : Nat
  availNodesCount : Nat → Nat
  regSizeSmallMedium : Nat → Nat
  jumpTreeFirstIndex : Nat → Nat
  jumpTree : Nat → JumpNode
  buddyTree : Nat → Byte

namespace Chunk

def isLeaf (idx : Nat) : Prop := idx ≥ (chunkNoNodes + 1) / 2

instance (idx : Nat) : Decidable (isLeaf idx) := by unfold isLeaf; infer_instance

def getJtItem (mem : Nat → JumpNode) (idx : Nat) : JumpNode := mem (idx - 1)

section Short

variable (sh : Short)

def setJtItemNext (mem : Nat → JumpNode) (idx val : Nat) : Nat → JumpNode :=
  Function.update mem (idx - 1) { mem (idx - 1) with next := sh.ofNat val }

def setJtItemPrev (mem : Nat → JumpNode) (idx val : Nat) : Nat → JumpNode :=
  Function.update mem (idx - 1) { mem (idx - 1) with prev := sh.ofNat val }

def incrJtItemNext (mem : Nat → JumpNode) (idx val : Nat) : Nat → JumpNode :=
  Function.update mem (idx - 1)
    { mem (idx - 1) with next := sh.ofNat ((mem (idx - 1)).next + sh.ofNat val) }

def incrJtItemPrev (mem : Nat → JumpNode) (idx val : Nat) : Nat → JumpNode :=
  Function.update mem (idx - 1)
    { mem (idx - 1) with prev := sh.ofNat ((mem (idx - 1)).prev + sh.ofNat val) }

end Short

def getBuddyTreeItem (mem : Nat → Byte) (idx : Nat) : ChunkNode :=
  ChunkNode.ofByte (getCrumb mem (idx - 1))

def setBuddyTreeItem (mem : Nat → Byte) (idx : Nat) (node : ChunkNode) : Nat → Byte :=
  setCrumb mem (idx - 1) (BitVec.ofNat 8 node.code.val)

/-- The loop of `chunk_init` over the levels, from level `i` with `l` nodes on. -/
def initLevels (sh : Short) : Nat → Nat → Nat → Chunk → Chunk
  | 0, _, _, ck => ck
  | rounds + 1, i, l, ck =>
      initLevels sh rounds (i + 1) (sh.ofNat (l * 2)) {
        ck with
        jumpTreeFirstIndex := Function.update ck.jumpTreeFirstIndex i l
        jumpTree := setJtItemNext sh (setJtItemPrev sh ck.jumpTree l 0) (2 * l - 1) 0
        availNodesCount := Function.update ck.availNodesCount i l }

/-- The stores of `chunk_init` before that loop. -/
def initFields (ck : Chunk) (heap : Nat) : Chunk where
  key := heap
  availNodesCount := ck.availNodesCount
  regSizeSmallMedium := fun _ => regMarkBadValue
  jumpTreeFirstIndex := ck.jumpTreeFirstIndex
  jumpTree := fun _ => ⟨1, 1⟩
  buddyTree := fun _ => 0#8

end Chunk

open Chunk

def chunkInit (sh : Short) (ck : Chunk) (heap : Nat) : Chunk :=
  let levels := initLevels sh (chunkBuddyTreeDepth + 1) 0 1 (initFields ck heap)
  { levels with
    availNodesCount := Function.update levels.availNodesCount 0 0
    jumpTreeFirstIndex := Function.update levels.jumpTreeFirstIndex 0 0 }

/-- The fields of `buddy_ctx_t` that the walks up the tree read. -/
structure BuddyCtx where
  idx : Nat
  curSize : Nat
  ptr : Nat
  deriving DecidableEq, Repr

def buddyStateGoUp (ctx : BuddyCtx) : BuddyCtx where
  ptr := if ctx.idx % 2 = 1 then sub64 ctx.ptr ctx.curSize else ctx.ptr
  idx := ctx.idx / 2
  curSize := u32 (ctx.curSize * 2)

def size2idx (runSize : Nat) : Nat := ctz (runSize / chunkLeastRegionSizeBytes)

namespace Chunk

section Allocate

variable (sh : Short)

/-- One round of the first loop of `chunk_allocate_with_node`: node `idx` of `level` is
taken out of the list of its level. -/
def unlinkNode (ck : Chunk) (node : JumpNode) (idx level : Nat) : Chunk :=
  let linked : Chunk :=
    if node.next = 0 then
      { ck with jumpTree := setJtItemNext sh ck.jumpTree (idx - node.prev) 0 }
    else if node.prev = 0 then
      { ck with
        jumpTreeFirstIndex := Function.update ck.jumpTreeFirstIndex level (idx + node.next)
        jumpTree := setJtItemPrev sh ck.jumpTree (idx + node.next) 0 }
    else
      { ck with
        jumpTree :=
          incrJtItemPrev sh (incrJtItemNext sh ck.jumpTree (idx - node.prev) node.next)
            (idx + node.next) node.prev }
  let count := sh.sub (linked.availNodesCount level) 1
  { linked with
    jumpTree := setJtItemPrev sh (setJtItemNext sh linked.jumpTree idx 0) idx 0
    availNodesCount := Function.update linked.availNodesCount level count
    jumpTreeFirstIndex :=
      if count = 0 then Function.update linked.jumpTreeFirstIndex level 0
      else linked.jumpTreeFirstIndex }

/-- The loop up the tree. It ends at the root, which is on no list. -/
def unlinkUp : Nat → Chunk → JumpNode → Nat → Nat → Chunk
  | 0, ck, _, _, _ => ck
  | rounds + 1, ck, node, idx, level =>
      if (node.next ≠ 0 ∨ node.prev ≠ 0) ∨ ck.jumpTreeFirstIndex level = idx then
        let unlinked := unlinkNode sh ck node idx level
        unlinkUp rounds unlinked (getJtItem unlinked.jumpTree (idx / 2)) (idx / 2) (level - 1)
      else ck

/-- One round of the second loop: the `span` nodes from `left` to `right` are taken out of
the list of their level. -/
def unlinkSpan (ck : Chunk) (left right span level : Nat) : Chunk :=
  let nodeLeft := getJtItem ck.jumpTree left
  let nodeRight := getJtItem ck.jumpTree right
  let linked : Chunk :=
    if nodeLeft.prev = 0 ∧ nodeRight.next = 0 then
      { ck with jumpTreeFirstIndex := Function.update ck.jumpTreeFirstIndex level 0 }
    else if nodeLeft.prev = 0 then
      { ck with
        jumpTreeFirstIndex := Function.update ck.jumpTreeFirstIndex level (right + nodeRight.next)
        jumpTree := setJtItemPrev sh ck.jumpTree (right + nodeRight.next) 0 }
    else if nodeRight.next = 0 then
      { ck with jumpTree := setJtItemNext sh ck.jumpTree (left - nodeLeft.prev) 0 }
    else
      { ck with
        jumpTree :=
          incrJtItemPrev sh
            (incrJtItemNext sh ck.jumpTree (left - nodeLeft.prev) ((span - 1) + nodeRight.next))
            (right + nodeRight.next) ((span - 1) + nodeLeft.prev) }
  { linked with
    availNodesCount :=
      Function.update linked.availNodesCount level (sh.sub (linked.availNodesCount level) span) }

/-- The loop down the tree, over `rounds` levels from `level` on. -/
def unlinkDown : Nat → Chunk → Nat → Nat → Nat → Nat → Chunk
  | 0, ck, _, _, _, _ => ck
  | rounds + 1, ck, left, right, span, level =>
      unlinkDown rounds (unlinkSpan sh ck left right span level) (left * 2) (right * 2 + 1)
        (span * 2) (level + 1)

/-- `memset` of `span` jump nodes from node `start` on. -/
def clearSpan (mem : Nat → JumpNode) (start span : Nat) : Nat → JumpNode := fun i =>
  if start - 1 ≤ i ∧ i < start - 1 + span then ⟨0, 0⟩ else mem i

/-- The loop that clears the subtree, over `rounds` levels. -/
def clearDown : Nat → (Nat → JumpNode) → Nat → Nat → (Nat → JumpNode)
  | 0, mem, _, _ => mem
  | rounds + 1, mem, start, span =>
      clearDown rounds (clearSpan mem start span) (start * 2) (span * 2)

end Allocate

def getLeftmostIdx (idx depth : Nat) : Nat := idx * 2 ^ depth

end Chunk

/-- `chunk_allocate_with_node`: the address of the run and the chunk afterwards. -/
def chunkAllocateWithNode (sh : Short) (ck : Chunk) (node : JumpNode) (idx level regSize : Nat) :
    Nat × Chunk :=
  let up := unlinkUp sh (level + 1) ck node idx level
  if isLeaf idx then
    (ck.key + (idx - 2 ^ level) * chunkLeastRegionSizeBytes,
      { up with
        regSizeSmallMedium :=
          if regSize ≠ chunkLeastRegionSizeBytes then
            Function.update up.regSizeSmallMedium (idx - 2 ^ level) (u16 regSize)
          else up.regSizeSmallMedium
        buddyTree := setBuddyTreeItem up.buddyTree idx .used })
  else
    let down := unlinkDown sh (chunkBuddyTreeDepth - level) up (idx * 2) (idx * 2 + 1) 2 (level + 1)
    let offset := getLeftmostIdx idx (chunkBuddyTreeDepth - level) - (chunkNoNodes + 1) / 2
    (ck.key + offset * chunkLeastRegionSizeBytes,
      { down with
        jumpTree := clearDown (chunkBuddyTreeDepth - level) down.jumpTree (idx * 2) 2
        buddyTree := setBuddyTreeItem down.buddyTree idx .used })

namespace Chunk

/-- The random probes: the first that hits a node with a neighbour on its list, and how
many random values were drawn. -/
def probe (rand : Nat → Nat) (ck : Chunk) (allNodes : Nat) : Nat → Nat → Option Nat × Nat
  | 0, draws => (none, draws)
  | tries + 1, draws =>
      let idx := allNodes + rand draws % allNodes
      let node := getJtItem ck.jumpTree idx
      if node.prev ≠ 0 ∨ node.next ≠ 0 then (some idx, draws + 1)
      else probe rand ck allNodes tries (draws + 1)

/-- The walk along the list of a level. -/
def walk (ck : Chunk) : Nat → Nat → Nat
  | 0, idx => idx
  | steps + 1, idx => walk ck steps (idx + (getJtItem ck.jumpTree idx).next)

/-- The node that `chunk_allocate_run` picks on a level with free nodes, and how many
random values it draws. -/
def pickNode (rand : Nat → Nat) (ck : Chunk) (level : Nat) : Nat × Nat :=
  let availNodes := ck.availNodesCount level
  let allNodes := 2 ^ level
  let tried :=
    if availNodes * 100 / allNodes > randomLookupTresholdPercentage then
      probe rand ck allNodes randomLookupTries 0
    else (none, 0)
  match tried with
  | (some idx, draws) => (idx, draws)
  | (none, draws) =>
      (walk ck (rand draws % availNodes) (ck.jumpTreeFirstIndex level), draws + 1)

end Chunk

/-- What `chunk_allocate_run` returns, the chunk afterwards and the random values drawn. -/
structure ChunkAlloc where
  result : Option Nat
  chunk : Chunk
  draws : Nat

def chunkAllocateRun (sh : Short) (rand : Nat → Nat) (ck : Chunk) (runSize regSize : Nat) :
    ChunkAlloc :=
  let level := chunkBuddyTreeDepth - size2idx runSize
  if ck.availNodesCount level = 0 then ⟨none, ck, 0⟩
  else
    let (idx, draws) := pickNode rand ck level
    let (ptr, ck') :=
      chunkAllocateWithNode sh ck (getJtItem ck.jumpTree idx) idx level regSize
    ⟨some ptr, ck', draws⟩

namespace Chunk

/-- The index of the other child of a node's parent. -/
def neighIdx (idx : Nat) : Nat := if idx % 2 = 1 then idx - 1 else idx + 1

/-- The loop of `coalesce_unmapped_nodes` and of `coalesce_depleted_nodes`, for the state
they look for. -/
def coalesceLoop (state : ChunkNode) : Nat → BuddyCtx → (Nat → Byte) → BuddyCtx × (Nat → Byte)
  | 0, ctx, mem => (ctx, mem)
  | rounds + 1, ctx, mem =>
      if ctx.idx > 1 then
        if getBuddyTreeItem mem (neighIdx ctx.idx) = state then
          coalesceLoop state rounds (buddyStateGoUp ctx)
            (setBuddyTreeItem mem (ctx.idx / 2) state)
        else (ctx, mem)
      else (ctx, mem)

/-- A node is at most 11 levels below the root. -/
def coalesceUnmappedNodes (ctx : BuddyCtx) (mem : Nat → Byte) : BuddyCtx × (Nat → Byte) :=
  coalesceLoop .unmapped chunkBuddyTreeDepth ctx mem

/-- The walk up from a leaf to a used node: that node and its size. It fails at the root,
at a right child, and at a depleted or unmapped node. -/
def climb (mem : Nat → Byte) : Nat → Nat → Nat → Option (Nat × Nat)
  | 0, _, _ => none
  | rounds + 1, idx, curSize =>
      let node := getBuddyTreeItem mem idx
      if node = .used then some (idx, curSize)
      else if idx = 1 ∨ idx % 2 = 1 then none
      else if node = .depleted ∨ node = .unmapped then none
      else climb mem rounds (idx / 2) (curSize * 2)

end Chunk

/-- What `chunk_deallocate_run` unmaps, the chunk once that has succeeded, and the value
it returns. -/
structure ChunkDealloc where
  unmapPtr : Nat
  unmapSize : Nat
  chunk : Chunk
  whole : Bool

/-- `chunk_deallocate_run`; `none` where it calls `se_error`. -/
def chunkDeallocateRun (ck : Chunk) (runPtr : Nat) : Option ChunkDealloc :=
  let firstLeafIdx := (chunkNoNodes + 1) / 2
  let ptrOffset := (runPtr - ck.key) / chunkLeastRegionSizeBytes
  match climb ck.buddyTree (chunkBuddyTreeDepth + 1) (firstLeafIdx + ptrOffset)
      chunkLeastRegionSizeBytes with
  | none => none
  | some (idx, curSize) =>
      let marked := setBuddyTreeItem ck.buddyTree idx .depleted
      let (ctx, depleted) := coalesceLoop .depleted chunkBuddyTreeDepth ⟨idx, curSize, runPtr⟩ marked
      let unmapped := setBuddyTreeItem depleted ctx.idx .unmapped
      let (last, tree) := coalesceUnmappedNodes ctx unmapped
      some {
        unmapPtr := ctx.ptr
        unmapSize := ctx.curSize
        chunk := { ck with buddyTree := tree }
        whole := last.idx = 1 }

/-- The three values that `chunk_get_run_ptr` fills. -/
structure RunInfo where
  runPtr : Nat
  runSize : Nat
  regSize : Nat
  deriving DecidableEq, Repr

/-- `chunk_get_run_ptr`; `none` where it leaves `run_ptr` null. -/
def chunkGetRunPtr (ck : Chunk) (ptr : Nat) : Option RunInfo :=
  if ptr < ck.key ∨ ck.key + chunkSizeBytes ≤ ptr then none
  else
    let blockOffset := (ptr - ck.key) / chunkLeastRegionSizeBytes
    let firstLeafIdx := (chunkNoNodes + 1) / 2
    let targetRunPtr := ck.key + blockOffset * chunkLeastRegionSizeBytes
    if getBuddyTreeItem ck.buddyTree (firstLeafIdx + blockOffset) ≠ .used then
      match climb ck.buddyTree (chunkBuddyTreeDepth + 1) (firstLeafIdx + blockOffset)
          chunkLeastRegionSizeBytes with
      | none => none
      | some (_, curSize) => some ⟨targetRunPtr, curSize, 0⟩
    else
      some ⟨targetRunPtr, chunkLeastRegionSizeBytes,
        if ck.regSizeSmallMedium blockOffset ≠ regMarkBadValue then
          ck.regSizeSmallMedium blockOffset
        else 0⟩

def chunkIsUnmapped (ck : Chunk) : Prop := getBuddyTreeItem ck.buddyTree 1 = .unmapped

def chunkIsFull (ck : Chunk) : Prop := ck.availNodesCount chunkBuddyTreeDepth = 0

instance (ck : Chunk) : Decidable (chunkIsUnmapped ck) := by
  unfold chunkIsUnmapped
  infer_instance

instance (ck : Chunk) : Decidable (chunkIsFull ck) := by
  unfold chunkIsFull
  infer_instance

end Sealloc
