import Sealloc.InternalAllocator.Refinement

/-! Runs of one internal allocator: the marks of its tree are determined by the live blocks. -/

namespace Sealloc

open Library

/-- A live block, with the size that was asked for. -/
structure IaBlock where
  ptr : Nat
  request : Nat
  deriving DecidableEq, Repr

namespace IaBlock

/-- The least power of two from 32 on that holds the request. -/
def size (block : IaBlock) : Nat := 32 * 2 ^ blockHeight block.request

def Holds (block : IaBlock) (addr : Nat) : Prop :=
  block.ptr ≤ addr ∧ addr < block.ptr + block.size

def Apart (first second : IaBlock) : Prop :=
  first.ptr + first.size ≤ second.ptr ∨ second.ptr + second.size ≤ first.ptr

end IaBlock

/-- The allocator's state and its live blocks after any sequence of the two operations on
an initialised allocator at `root`. -/
inductive IaRun (root : Nat) : IntAlloc → List IaBlock → Prop
  | init (ia : IntAlloc) : IaRun root (internalAllocatorInit ia) []
  | alloc {ia ia' : IntAlloc} {live : List IaBlock} {size ptr : Nat} (before : IaRun root ia live)
      (positive : 1 ≤ size) (small : size ≤ 4194304)
      (call : internalAlloc root size ia = .ok (some ptr) ia') :
      IaRun root ia' (⟨ptr, size⟩ :: live)
  | refuse {ia ia' : IntAlloc} {live : List IaBlock} {size : Nat} (before : IaRun root ia live)
      (positive : 1 ≤ size) (small : size ≤ 4194304)
      (call : internalAlloc root size ia = .ok none ia') : IaRun root ia' live
  | free {ia ia' : IntAlloc} {live : List IaBlock} {block : IaBlock} (before : IaRun root ia live)
      (member : block ∈ live) (call : internalFree root block.ptr ia = .ok () ia') :
      IaRun root ia' (live.erase block)

/-- The number of bytes under a node. -/
def nodeSize (idx : Nat) : Nat := 32 * 2 ^ (18 - Nat.log2 idx)

/-- The first byte under a node. -/
def nodeStart (root idx : Nat) : Nat :=
  intAllocMemory root + (idx - 2 ^ Nat.log2 idx) * nodeSize idx

/-- No proper ancestor is free or used. -/
def Exposed (mem : Nat → Byte) (idx : Nat) : Prop :=
  ∀ up, 0 < up → 0 < idx / 2 ^ up →
    getTreeItem mem (idx / 2 ^ up) ≠ .free ∧ getTreeItem mem (idx / 2 ^ up) ≠ .used

namespace IaBlock

def Within (block : IaBlock) (start size : Nat) : Prop :=
  start ≤ block.ptr ∧ block.ptr + block.size ≤ start + size

def Outside (block : IaBlock) (start size : Nat) : Prop :=
  block.ptr + block.size ≤ start ∨ start + size ≤ block.ptr

end IaBlock

/-- The range is completely covered by two or more live blocks. -/
def CoveredBySeveral (live : List IaBlock) (start size : Nat) : Prop :=
  (∀ addr, start ≤ addr → addr < start + size → ∃ block ∈ live, block.Holds addr) ∧
    ∃ first ∈ live, ∃ second ∈ live, first.ptr ≠ second.ptr ∧
      first.Within start size ∧ second.Within start size

/-- The state of a node is the one that the live blocks determine. -/
structure Canonical (root : Nat) (mem : Nat → Byte) (live : List IaBlock) (idx : Nat) : Prop where
  sides : ∀ block ∈ live, block.Within (nodeStart root idx) (nodeSize idx) ∨
    block.Outside (nodeStart root idx) (nodeSize idx)
  free : getTreeItem mem idx = .free ↔
    ∀ block ∈ live, ¬ block.Within (nodeStart root idx) (nodeSize idx)
  used : getTreeItem mem idx = .used ↔
    ∃ block ∈ live, block.ptr = nodeStart root idx ∧ block.size = nodeSize idx
  full : getTreeItem mem idx = .full ↔
    CoveredBySeveral live (nodeStart root idx) (nodeSize idx)
  split : getTreeItem mem idx = .split ↔
    (∃ block ∈ live, block.Within (nodeStart root idx) (nodeSize idx)) ∧
      (¬ ∃ block ∈ live, block.ptr = nodeStart root idx ∧ block.size = nodeSize idx) ∧
      ¬ CoveredBySeveral live (nodeStart root idx) (nodeSize idx)

/-- The live blocks are the blocks of the tree. -/
def LiveBlocks (root : Nat) (ia : IntAlloc) (live : List IaBlock) : Prop :=
  (live.map fun block => (block.ptr, blockHeight block.request)).Perm (ia.blocks root)

/-- What holds of the state and the live blocks in every run. -/
theorem iaRun_invariant {root : Nat} {ia : IntAlloc} {live : List IaBlock}
    (space : root + intAllocSizeof < 2 ^ 64) (run : IaRun root ia live) :
    ia.Valid ∧ LiveBlocks root ia live := by
  induction run with
  | init ia =>
      obtain ⟨tree, valid⟩ := internalAllocatorInit_valid ia
      refine ⟨valid, ?_⟩
      unfold LiveBlocks IntAlloc.blocks
      rw [tree]
      simp
  | alloc before positive small call ih =>
      obtain ⟨valid, blocks⟩ := ih
      rcases internalAlloc_valid valid space positive small with
        ⟨ptr, ia', taken, valid', added⟩ | refused
      · rw [taken] at call
        injection call with samePtr sameState
        injection samePtr with samePtr
        subst samePtr
        subst sameState
        exact ⟨valid', (blocks.cons _).trans added.symm⟩
      · rw [refused] at call
        simp at call
  | refuse before positive small call ih =>
      obtain ⟨valid, blocks⟩ := ih
      rcases internalAlloc_valid valid space positive small with
        ⟨ptr, ia', taken, valid', added⟩ | refused
      · rw [taken] at call
        simp at call
      · rw [refused] at call
        injection call with _ sameState
        subst sameState
        exact ⟨valid, blocks⟩
  | @free ia ia' live block before member call ih =>
      obtain ⟨valid, blocks⟩ := ih
      have live' := List.perm_cons_erase member
      have inTree : (block.ptr, blockHeight block.request) ∈ ia.blocks root :=
        blocks.mem_iff.mp (List.mem_map.mpr ⟨block, member, rfl⟩)
      obtain ⟨ia'', freed, valid', removed⟩ := internalFree_valid valid inTree
      rw [freed] at call
      injection call with _ sameState
      subst sameState
      refine ⟨valid', ?_⟩
      have shifted := ((live'.map _).symm.trans blocks).trans removed
      exact (List.perm_cons _).mp shifted

/-- An exposed node has its own part of the tree: the blocks under it are the blocks of a
subtree, and every other block lies outside its range. -/
theorem exposed_subtree {mem : Nat → Byte} {t : Buddy} (wf : Buddy.WellFormed 18 t)
    (rep : Represents mem 1 18 t) (depth : Nat) (deep : depth ≤ 18) (idx : Nat)
    (low : 2 ^ depth ≤ idx) (high : idx < 2 ^ (depth + 1)) (exposed : Exposed mem idx) :
    ∃ sub, Represents mem idx (18 - depth) sub ∧ Buddy.WellFormed (18 - depth) sub ∧
      Buddy.Restricts (Buddy.blocks 0 18 t) ((idx - 2 ^ depth) * 2 ^ (18 - depth))
        (18 - depth) sub := by
  induction depth generalizing idx with
  | zero =>
      have one : idx = 1 := by omega
      subst one
      exact ⟨t, rep, wf, fun part member => by simpa using member,
        fun part member => Or.inl (by simpa using member)⟩
  | succ depth ih =>
      have parentExposed : Exposed mem (idx / 2) := by
        intro up positive inTree
        have same : idx / 2 / 2 ^ up = idx / 2 ^ (up + 1) := by
          rw [Nat.div_div_eq_div_mul, Nat.pow_succ']
        rw [same] at inTree ⊢
        exact exposed (up + 1) (by omega) inTree
      rw [Nat.pow_succ] at low high
      obtain ⟨parent, repParent, wfParent, inside, outside⟩ :=
        ih (by omega) (idx / 2) (by omega) (by omega) parentExposed
      have state := exposed 1 (by decide) (by
        have := Nat.two_pow_pos depth
        omega)
      rw [Nat.pow_one, repParent.root] at state
      obtain ⟨h, height⟩ : ∃ h, 18 - depth = h + 1 := ⟨17 - depth, by omega⟩
      have childHeight : 18 - (depth + 1) = h := by omega
      rw [height] at repParent wfParent inside outside
      rw [childHeight, Nat.pow_succ 2 depth]
      cases parent with
      | free => exact absurd rfl state.1
      | used => exact absurd rfl state.2
      | node left right =>
          obtain ⟨-, repLeft, repRight⟩ := repParent
          obtain ⟨wfLeft, wfRight, -⟩ := wfParent
          have double : 2 ^ (h + 1) = 2 ^ h * 2 := Nat.pow_succ 2 h
          rcases Nat.mod_two_eq_zero_or_one idx with even | odd
          · have isLeft : idx / 2 * 2 = idx := by omega
            have start : (idx - 2 ^ depth * 2) * 2 ^ h =
                (idx / 2 - 2 ^ depth) * 2 ^ (h + 1) := by
              have shift : idx - 2 ^ depth * 2 = (idx / 2 - 2 ^ depth) * 2 := by omega
              rw [shift, Nat.pow_succ', ← Nat.mul_assoc]
            rw [isLeft] at repLeft
            rw [start]
            refine ⟨left, repLeft, wfLeft, fun part member =>
              inside part (List.mem_append_left _ member), fun part member => ?_⟩
            rcases outside part member with within | apart
            · rcases List.mem_append.mp within with inLeft | inRight
              · exact Or.inl inLeft
              · have bounds := Buddy.block_bounds inRight
                exact Or.inr (Or.inr bounds.1)
            · unfold Buddy.Apart at apart ⊢
              simp only at apart ⊢
              omega
          · have isRight : idx / 2 * 2 + 1 = idx := by omega
            have start : (idx - 2 ^ depth * 2) * 2 ^ h =
                (idx / 2 - 2 ^ depth) * 2 ^ (h + 1) + 2 ^ h := by
              have shift : idx - 2 ^ depth * 2 = (idx / 2 - 2 ^ depth) * 2 + 1 := by omega
              rw [shift, Nat.pow_succ', ← Nat.mul_assoc, Nat.succ_mul]
            rw [isRight] at repRight
            rw [start]
            refine ⟨right, repRight, wfRight, fun part member =>
              inside part (List.mem_append_right _ member), fun part member => ?_⟩
            rcases outside part member with within | apart
            · rcases List.mem_append.mp within with inLeft | inRight
              · have bounds := Buddy.block_bounds inLeft
                exact Or.inr (Or.inl bounds.2)
              · exact Or.inl inRight
            · unfold Buddy.Apart at apart ⊢
              simp only at apart ⊢
              omega

section LiveBlocks

variable {root : Nat} {ia : IntAlloc} {live : List IaBlock}

theorem LiveBlocks.part (blocks : LiveBlocks root ia live) {block : IaBlock}
    (member : block ∈ live) : ∃ offset, block.ptr = intAllocMemory root + 32 * offset ∧
      (offset, blockHeight block.request) ∈ Buddy.blocks 0 18 ia.tree :=
  IntAlloc.mem_blocks (blocks.mem_iff.mp (List.mem_map.mpr ⟨block, member, rfl⟩))

theorem LiveBlocks.block (blocks : LiveBlocks root ia live) {part : Nat × Nat}
    (member : part ∈ Buddy.blocks 0 18 ia.tree) :
    ∃ block ∈ live, block.ptr = intAllocMemory root + 32 * part.1 ∧
      blockHeight block.request = part.2 := by
  have inBlocks : (intAllocMemory root + 32 * part.1, part.2) ∈ ia.blocks root :=
    List.mem_map.mpr ⟨part, member, rfl⟩
  obtain ⟨block, isLive, same⟩ := List.mem_map.mp (blocks.mem_iff.mpr inBlocks)
  rw [Prod.mk.injEq] at same
  exact ⟨block, isLive, same.1, same.2⟩

theorem within_iff {block : IaBlock} {offset b h memory : Nat}
    (ptr : block.ptr = memory + 32 * offset) :
    block.Within (memory + 32 * b) (32 * 2 ^ h) ↔
      Buddy.Within (offset, blockHeight block.request) (b, h) := by
  unfold IaBlock.Within Buddy.Within IaBlock.size
  rw [ptr]
  simp only
  omega

theorem LiveBlocks.covered_iff (blocks : LiveBlocks root ia live) (base h : Nat) :
    (∀ addr, intAllocMemory root + 32 * base ≤ addr →
      addr < intAllocMemory root + 32 * base + 32 * 2 ^ h → ∃ block ∈ live, block.Holds addr) ↔
      ∀ unit, Buddy.Inside (base, h) unit →
        ∃ part ∈ Buddy.blocks 0 18 ia.tree, Buddy.Inside part unit := by
  constructor
  · intro covered unit inside
    unfold Buddy.Inside at inside
    simp only at inside
    obtain ⟨block, isLive, holds⟩ :=
      covered (intAllocMemory root + 32 * unit) (by omega) (by omega)
    obtain ⟨offset, ptr, member⟩ := blocks.part isLive
    unfold IaBlock.Holds IaBlock.size at holds
    rw [ptr] at holds
    exact ⟨_, member, by unfold Buddy.Inside; simp only; omega⟩
  · intro covered addr low high
    obtain ⟨part, member, inside⟩ :=
      covered ((addr - intAllocMemory root) / 32) (by unfold Buddy.Inside; simp only; omega)
    obtain ⟨block, isLive, ptr, height⟩ := blocks.block member
    refine ⟨block, isLive, ?_⟩
    unfold Buddy.Inside at inside
    unfold IaBlock.Holds IaBlock.size
    rw [ptr, height]
    omega

theorem LiveBlocks.several_iff (blocks : LiveBlocks root ia live) (base h : Nat) :
    CoveredBySeveral live (intAllocMemory root + 32 * base) (32 * 2 ^ h) ↔
      (∀ unit, Buddy.Inside (base, h) unit →
        ∃ part ∈ Buddy.blocks 0 18 ia.tree, Buddy.Inside part unit) ∧
      ∃ first ∈ Buddy.blocks 0 18 ia.tree, ∃ second ∈ Buddy.blocks 0 18 ia.tree,
        first.1 ≠ second.1 ∧ Buddy.Within first (base, h) ∧ Buddy.Within second (base, h) := by
  unfold CoveredBySeveral
  rw [blocks.covered_iff]
  refine and_congr_right fun _ => ?_
  constructor
  · rintro ⟨first, one, second, two, different, low, high⟩
    obtain ⟨offset, ptr, member⟩ := blocks.part one
    obtain ⟨offset', ptr', member'⟩ := blocks.part two
    exact ⟨_, member, _, member', fun same => different (by simp only at same; omega),
      (within_iff ptr).mp low, (within_iff ptr').mp high⟩
  · rintro ⟨first, one, second, two, different, low, high⟩
    obtain ⟨block, isLive, ptr, height⟩ := blocks.block one
    obtain ⟨block', isLive', ptr', height'⟩ := blocks.block two
    refine ⟨block, isLive, block', isLive', by omega, (within_iff ptr).mpr ?_,
      (within_iff ptr').mpr ?_⟩
    · rw [height]
      exact low
    · rw [height']
      exact high

/-- A node whose part of the tree is `sub` is in the state that the live blocks determine. -/
theorem canonical_of_subtree (blocks : LiveBlocks root ia live) {idx base h : Nat} {sub : Buddy}
    (start : nodeStart root idx = intAllocMemory root + 32 * base)
    (size : nodeSize idx = 32 * 2 ^ h) (rep : Represents ia.buddyTree idx h sub)
    (wf : Buddy.WellFormed h sub)
    (restricts : Buddy.Restricts (Buddy.blocks 0 18 ia.tree) base h sub) :
    Canonical root ia.buddyTree live idx := by
  have within : (∀ block ∈ live, ¬ block.Within (nodeStart root idx) (nodeSize idx)) ↔
      ∀ part ∈ Buddy.blocks 0 18 ia.tree, ¬ Buddy.Within part (base, h) := by
    rw [start, size]
    constructor
    · intro none part member inside
      obtain ⟨block, isLive, ptr, height⟩ := blocks.block member
      refine none block isLive ((within_iff ptr).mpr ?_)
      rw [height]
      exact inside
    · intro none block isLive inside
      obtain ⟨offset, ptr, member⟩ := blocks.part isLive
      exact none _ member ((within_iff ptr).mp inside)
  have exact_ : (∃ block ∈ live, block.ptr = nodeStart root idx ∧ block.size = nodeSize idx) ↔
      (base, h) ∈ Buddy.blocks 0 18 ia.tree := by
    rw [start, size]
    constructor
    · rintro ⟨block, isLive, ptr, same⟩
      obtain ⟨offset, ptr', member⟩ := blocks.part isLive
      have sameHeight : blockHeight block.request = h := by
        unfold IaBlock.size at same
        exact Nat.pow_right_injective (by decide : 1 < 2) (show 2 ^ _ = 2 ^ _ by omega)
      rw [sameHeight, show offset = base by omega] at member
      exact member
    · intro member
      obtain ⟨block, isLive, ptr, height⟩ := blocks.block member
      exact ⟨block, isLive, ptr, by rw [IaBlock.size, height]⟩
  have several := blocks.several_iff base h
  have freeIff := restricts.free_iff wf
  have usedIff := restricts.used_iff wf
  have severalIff := restricts.several_iff wf
  have isFree : getTreeItem ia.buddyTree idx = .free ↔
      ∀ block ∈ live, ¬ block.Within (nodeStart root idx) (nodeSize idx) := by
    rw [rep.root, rootState_free, within]
    exact freeIff
  have isUsed : getTreeItem ia.buddyTree idx = .used ↔
      ∃ block ∈ live, block.ptr = nodeStart root idx ∧ block.size = nodeSize idx := by
    rw [rep.root, rootState_used, exact_]
    exact usedIff
  have isFull : getTreeItem ia.buddyTree idx = .full ↔
      CoveredBySeveral live (nodeStart root idx) (nodeSize idx) := by
    rw [rep.root, rootState_full_iff, start, size, several]
    exact severalIff
  refine ⟨?_, isFree, isUsed, isFull, ?_⟩
  · intro block isLive
    obtain ⟨offset, ptr, member⟩ := blocks.part isLive
    rw [start, size]
    rcases restricts.2 _ member with inside | apart
    · exact Or.inl ((within_iff ptr).mpr (Buddy.block_bounds inside))
    · right
      unfold Buddy.Apart at apart
      unfold IaBlock.Outside IaBlock.size
      rw [ptr]
      simp only at apart
      omega
  · rw [← isUsed, ← isFull]
    have someBlock : (∃ block ∈ live, block.Within (nodeStart root idx) (nodeSize idx)) ↔
        getTreeItem ia.buddyTree idx ≠ .free := by
      rw [Ne, isFree]
      push Not
      rfl
    rw [someBlock]
    cases getTreeItem ia.buddyTree idx <;> simp

end LiveBlocks

theorem node_start (root : Nat) {idx depth : Nat} (low : 2 ^ depth ≤ idx)
    (high : idx < 2 ^ (depth + 1)) :
    nodeStart root idx = intAllocMemory root + 32 * ((idx - 2 ^ depth) * 2 ^ (18 - depth)) ∧
      nodeSize idx = 32 * 2 ^ (18 - depth) := by
  have log : Nat.log2 idx = depth := by
    rw [Nat.log2_eq_iff (by have := Nat.two_pow_pos depth; omega)]
    exact ⟨low, high⟩
  unfold nodeStart nodeSize
  rw [log]
  exact ⟨by ring, rfl⟩

theorem canonical_node {root : Nat} {ia : IntAlloc} {live : List IaBlock} (valid : ia.Valid)
    (blocks : LiveBlocks root ia live) {idx : Nat} (first : 1 ≤ idx)
    (last : idx ≤ internalAllocNoNodes) (exposed : Exposed ia.buddyTree idx) :
    Canonical root ia.buddyTree live idx := by
  have nodes : internalAllocNoNodes = 2 ^ 19 - 1 := by decide
  have low : 2 ^ Nat.log2 idx ≤ idx := Nat.log2_self_le (by omega)
  have high : idx < 2 ^ (Nat.log2 idx + 1) := Nat.lt_log2_self
  have deep : Nat.log2 idx ≤ 18 := by
    have small : Nat.log2 idx < 19 := (Nat.log2_lt (by omega)).mpr (by omega)
    omega
  obtain ⟨sub, rep, wf, restricts⟩ :=
    exposed_subtree valid.wellFormed valid.represents _ deep idx low high exposed
  obtain ⟨start, size⟩ := node_start root low high
  exact canonical_of_subtree blocks start size rep wf restricts

theorem live_total {root : Nat} {ia : IntAlloc} {live : List IaBlock}
    (blocks : LiveBlocks root ia live) :
    (live.map IaBlock.size).sum = 32 * Buddy.units (Buddy.blocks 0 18 ia.tree) := by
  have sizes := (List.Perm.map (fun part : Nat × Nat => 32 * 2 ^ part.2) blocks).sum_eq
  rw [List.map_map] at sizes
  unfold IntAlloc.blocks at sizes
  rw [List.map_map] at sizes
  unfold Buddy.units
  rw [← List.sum_map_mul_left]
  exact sizes

theorem live_apart {root : Nat} {ia : IntAlloc} {live : List IaBlock}
    (blocks : LiveBlocks root ia live) : live.Pairwise IaBlock.Apart := by
  have parts := IntAlloc.blocks_apart root ia
  have sorted := (List.Perm.pairwise_iff (fun apart => Or.symm apart) blocks).mpr parts
  rw [List.pairwise_map] at sorted
  exact sorted

/-- A live block lies in the memory of the allocator, aligned to its own size. -/
theorem live_block {root : Nat} {ia : IntAlloc} {live : List IaBlock}
    (blocks : LiveBlocks root ia live) {block : IaBlock} (member : block ∈ live) :
    block.request ≤ block.size ∧
      block.Within (intAllocMemory root) internalAllocChunkSizeBytes ∧
      block.size ∣ block.ptr - intAllocMemory root := by
  obtain ⟨offset, ptr, inTree⟩ := blocks.part member
  have bounds := Buddy.block_bounds inTree
  have aligned := Buddy.block_aligned (Nat.dvd_zero _) inTree
  refine ⟨(blockHeight_spec block.request).1, ?_, ?_⟩
  · have whole := (within_iff (b := 0) (h := 18) ptr).mpr bounds
    rw [internalAllocChunkSizeBytes_eq]
    exact whole
  · rw [ptr, Nat.add_sub_cancel_left]
    exact Nat.mul_dvd_mul_left 32 aligned

/-- In every run on an allocator at `root`, the live blocks determine the state of each node
under no free or used one and `free_mem`. The live blocks are disjoint aligned powers of two
inside `memory`. Freeing what was just allocated restores the tree, and with no live block
left the root is free. -/
theorem internalAllocator_canonical {root : Nat} {ia : IntAlloc} {live : List IaBlock}
    (space : root + intAllocSizeof < 2 ^ 64) (run : IaRun root ia live) :
    (∀ idx, 1 ≤ idx → idx ≤ internalAllocNoNodes → Exposed ia.buddyTree idx →
      Canonical root ia.buddyTree live idx) ∧
    ia.freeMem + (live.map IaBlock.size).sum = internalAllocChunkSizeBytes ∧
    live.Pairwise IaBlock.Apart ∧
    (∀ block ∈ live, (∃ e, block.size = 2 ^ e) ∧ block.request ≤ block.size ∧
      block.Within (intAllocMemory root) internalAllocChunkSizeBytes ∧
      block.size ∣ block.ptr - intAllocMemory root) ∧
    (∀ size, 1 ≤ size → size ≤ 4194304 →
      ∃ result ia', internalAlloc root size ia = .ok result ia') ∧
    (∀ block ∈ live, ∃ ia', internalFree root block.ptr ia = .ok () ia') ∧
    (∀ size ptr ia', 1 ≤ size → size ≤ 4194304 →
      internalAlloc root size ia = .ok (some ptr) ia' →
      ∃ ia'', internalFree root ptr ia' = .ok () ia'' ∧
        ia''.tree = ia.tree ∧ ia''.freeMem = ia.freeMem) ∧
    (live = [] → getTreeItem ia.buddyTree 1 = .free) := by
  obtain ⟨valid, blocks⟩ := iaRun_invariant space run
  have canonical : ∀ idx, 1 ≤ idx → idx ≤ internalAllocNoNodes → Exposed ia.buddyTree idx →
      Canonical root ia.buddyTree live idx :=
    fun idx first last exposed => canonical_node valid blocks first last exposed
  refine ⟨canonical, ?_, live_apart blocks, ?_, ?_, ?_, ?_, ?_⟩
  · rw [live_total blocks]
    exact valid.freeMem
  · intro block member
    exact ⟨⟨5 + blockHeight block.request, by rw [IaBlock.size, Nat.pow_add]⟩,
      live_block blocks member⟩
  · intro size positive small
    rcases internalAlloc_valid valid space positive small with ⟨ptr, ia', taken, -⟩ | refused
    · exact ⟨_, _, taken⟩
    · exact ⟨_, _, refused⟩
  · intro block member
    obtain ⟨offset, ptr, inTree⟩ := blocks.part member
    obtain ⟨ia', freed, -⟩ := internalFree_refines valid inTree
    exact ⟨ia', by rw [ptr]; exact freed⟩
  · intro size ptr ia' positive small call
    have refines := internalAlloc_refines valid space positive small
    cases taken : Buddy.alloc (blockHeight size) 18 ia.tree with
    | none =>
        rw [taken] at refines
        rw [refines] at call
        simp at call
    | some result =>
        obtain ⟨offset, rest⟩ := result
        rw [taken] at refines
        obtain ⟨ia₁, run₁, tree₁, valid₁⟩ := refines
        rw [run₁] at call
        injection call with samePtr sameState
        injection samePtr with samePtr
        subst samePtr
        subst sameState
        have fits : blockHeight size ≤ 18 := blockHeight_le (by omega)
        have added := Buddy.alloc_blocks (b := 0) fits taken
        rw [Nat.zero_add] at added
        have member : (offset, blockHeight size) ∈ Buddy.blocks 0 18 ia₁.tree := by
          rw [tree₁]
          exact added.mem_iff.mpr List.mem_cons_self
        obtain ⟨ia₂, freed, tree₂, valid₂⟩ := internalFree_refines valid₁ member
        have same : ia₂.tree = ia.tree := by
          rw [tree₂, tree₁, Buddy.release_alloc valid.wellFormed fits taken]
        refine ⟨ia₂, freed, same, ?_⟩
        have before := valid.freeMem
        have after := valid₂.freeMem
        rw [same] at after
        omega
  · intro none
    have exposed : Exposed ia.buddyTree 1 := by
      intro up positive inTree
      have small : 1 / 2 ^ up = 0 := Nat.div_eq_of_lt (Nat.one_lt_two_pow (by omega))
      omega
    refine (canonical 1 (Nat.le_refl 1) (by decide) exposed).free.mpr ?_
    rw [none]
    simp

/-- One block allocated from a fresh allocator. -/
theorem internalAllocator_canonical_once : ∃ (ia : IntAlloc) (live : List IaBlock),
    live = [⟨135200, 100⟩] ∧ IaRun 4096 ia live ∧ Canonical 4096 ia.buddyTree live 1 := by
  have fresh := internalAllocatorInit_valid ⟨0, fun _ => 0⟩
  have refines := @internalAlloc_refines 4096 100 _ fresh.2 (by decide) (by decide) (by decide)
  rw [fresh.1, Buddy.alloc_free] at refines
  obtain ⟨ia, call, -, -⟩ := refines
  have run := IaRun.alloc (IaRun.init ⟨0, fun _ => 0⟩) (by decide) (by decide) call
  refine ⟨ia, _, by decide, run, ?_⟩
  refine (internalAllocator_canonical (by decide) run).1 1 (by decide) (by decide) ?_
  intro up positive inTree
  have small : 1 / 2 ^ up = 0 := Nat.div_eq_of_lt (Nat.one_lt_two_pow (by omega))
  omega

end Sealloc
