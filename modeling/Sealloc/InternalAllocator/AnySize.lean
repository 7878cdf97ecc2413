import Sealloc.InternalAllocator.FirstFit

/-! Calls of `internal_alloc` with any size: for which of them the search goes wrong. -/

namespace Sealloc

open Library

/-- `internal_alloc` with a bound on the rounds of its loop. -/
def internalAllocRounds (root size rounds : Nat) : Prog IntAlloc (Option Nat) := fun ia =>
  if ia.freeMem < size then .ok none ia
  else
    internalAllocLoop size rounds
      ⟨1, internalAllocChunkSizeBytes, intAllocMemory root, .down⟩ ia

/-- The call ends; null changes nothing, and otherwise the bytes that were asked for lie inside
`memory`, apart from all live blocks. -/
def Settles (root size : Nat) (ia : IntAlloc) (live : List IaBlock) : Prop :=
  ∃ rounds result ia', internalAllocRounds root size rounds ia = .ok result ia' ∧
    (result = none → ia' = ia) ∧
    ∀ ptr, result = some ptr → intAllocMemory root ≤ ptr ∧
      ptr + size ≤ intAllocMemory root + internalAllocChunkSizeBytes ∧
      ∀ block ∈ live, ptr + size ≤ block.ptr ∨ block.ptr + block.size ≤ ptr

/-- A half of `memory[]`. -/
def halfBytes : Nat := 4194304

/-- The search leaves the tree at its root: for nothing in a full allocator, or for more than
half of `memory[]` while there are live blocks, but in one half only. -/
def Misled (root size : Nat) (ia : IntAlloc) (live : List IaBlock) : Prop :=
  (size = 0 ∧ ia.freeMem = 0) ∨
    (halfBytes < size ∧ size ≤ ia.freeMem ∧ live ≠ [] ∧
      ((∀ block ∈ live, block.Outside (intAllocMemory root) halfBytes) ∨
        ∀ block ∈ live, block.Outside (intAllocMemory root + halfBytes) halfBytes))

/-- The allocator after calls of any size that the search survives, and frees of live blocks. -/
inductive IaAnyRun (root : Nat) : IntAlloc → List IaBlock → Prop
  | init (ia : IntAlloc) : IaAnyRun root (internalAllocatorInit ia) []
  | alloc {ia ia' : IntAlloc} {live : List IaBlock} {size rounds ptr : Nat}
      (before : IaAnyRun root ia live) (survives : ¬ Misled root size ia live)
      (call : internalAllocRounds root size rounds ia = .ok (some ptr) ia') :
      IaAnyRun root ia' (⟨ptr, size⟩ :: live)
  | refuse {ia ia' : IntAlloc} {live : List IaBlock} {size rounds : Nat}
      (before : IaAnyRun root ia live) (survives : ¬ Misled root size ia live)
      (call : internalAllocRounds root size rounds ia = .ok none ia') : IaAnyRun root ia' live
  | free {ia ia' : IntAlloc} {live : List IaBlock} {block : IaBlock}
      (before : IaAnyRun root ia live) (member : block ∈ live)
      (call : internalFree root block.ptr ia = .ok () ia') : IaAnyRun root ia' (live.erase block)

section Rounds

variable {root size : Nat} {s : Search} {ia : IntAlloc}

/-- More rounds do not change what the loop returns. -/
theorem internalAllocLoop_more (size extra rounds : Nat) : ∀ (s : Search) (ia : IntAlloc),
    internalAllocLoop size rounds s ia ≠ .fuel →
      internalAllocLoop size (rounds + extra) s ia = internalAllocLoop size rounds s ia := by
  induction rounds with
  | zero =>
      intro s ia ends
      exact absurd rfl ends
  | succ rounds ih =>
      intro s ia ends
      rw [Nat.succ_add]
      unfold internalAllocLoop at ends ⊢
      by_cases back : s.idx = 1 ∧ s.state = .upRight
      · simp only [if_pos back]
      · simp only [if_neg back] at ends ⊢
        cases step : internalAllocStep size s ia with
        | search next ia' =>
            simp only [step] at ends ⊢
            exact ih next ia' ends
        | found ptr ia' => rfl
        | error => rfl

/-- Two bounds under which a call returns give the same result. -/
theorem internalAllocRounds_unique {rounds rounds' : Nat} {result result' : Option Nat}
    {ia₁ ia₂ : IntAlloc} (one : internalAllocRounds root size rounds ia = .ok result ia₁)
    (two : internalAllocRounds root size rounds' ia = .ok result' ia₂) :
    result = result' ∧ ia₁ = ia₂ := by
  unfold internalAllocRounds at one two
  by_cases guard : ia.freeMem < size
  · rw [if_pos guard] at one two
    have same := one.symm.trans two
    rwa [Outcome.ok.injEq] at same
  · rw [if_neg guard] at one two
    have more := internalAllocLoop_more size rounds' rounds
      ⟨1, internalAllocChunkSizeBytes, intAllocMemory root, .down⟩ ia (by rw [one]; simp)
    have more' := internalAllocLoop_more size rounds rounds'
      ⟨1, internalAllocChunkSizeBytes, intAllocMemory root, .down⟩ ia (by rw [two]; simp)
    rw [Nat.add_comm] at more'
    have same := (one.symm.trans more.symm).trans (more'.trans two)
    rwa [Outcome.ok.injEq] at same

end Rounds

section Escape

variable {root size : Nat} {s : Search} {ia : IntAlloc}

/-- A request that only the whole node fits takes it when it is free, and else goes up. -/
theorem visit_whole (s : Search) (ia : IntAlloc) (inner : ¬ isLeaf s.idx) (down : s.state = .down)
    (fits : s.curSize / 2 < size ∧ size ≤ s.curSize) :
    internalAllocStep size s ia =
      if getTreeItem ia.buddyTree s.idx = .free then .found s.ptr (takeNode s ia)
      else .search s.up ia := by
  rw [internalAllocStep, if_neg inner, down]
  cases getTreeItem ia.buddyTree s.idx with
  | free => simp only [if_pos fits, if_true]
  | split => simp only [if_pos fits, reduceCtorEq, if_false]
  | used => simp only [reduceCtorEq, if_false]
  | full => simp only [reduceCtorEq, if_false]

theorem inner_of_small (idx : Nat) (small : idx ≤ 3) : ¬ isLeaf idx := by
  unfold isLeaf internalAllocNoNodes internalAllocNoNodesLastLayer internalAllocChunkSizeBytes
    internalAllocLeastRegionSizeBytes
  omega

theorem visit_above (curSize ptr : Nat) :
    internalAllocStep size ⟨0, curSize, ptr, .upRight⟩ ia =
      .search ⟨0, u64 (curSize * 2), ptr, .upLeft⟩ ia := by
  rw [internalAllocStep, if_neg (inner_of_small 0 (by decide))]
  simp [Search.up]

/-- The two rounds above the root, after which the loop stands on a root of another size. -/
theorem internalAllocLoop_above (rounds curSize ptr : Nat) :
    internalAllocLoop size (rounds + 2) ⟨0, curSize, ptr, .upRight⟩ ia =
      internalAllocLoop size rounds ⟨1, u64 (curSize * 2) / 2,
        u64 (ptr + u64 (curSize * 2) / 2), .down⟩ ia := by
  have second : internalAllocStep size ⟨0, u64 (curSize * 2), ptr, .upLeft⟩ ia =
      .search ⟨1, u64 (curSize * 2) / 2, u64 (ptr + u64 (curSize * 2) / 2), .down⟩ ia := by
    rw [internalAllocStep, if_neg (inner_of_small 0 (by decide))]
    simp [Search.right]
  rw [internalAllocLoop_search (by simp) (visit_above curSize ptr),
    internalAllocLoop_search (by simp) second]

variable {bytes memory : Nat}

/-- A search for more than half of a split root leaves it, and comes down on the left half as if
that were as large as the root and began behind it. -/
theorem internalAllocLoop_escape (space : memory + bytes < 2 ^ 64) (width : bytes * 4 < 2 ^ 64)
    (split : getTreeItem ia.buddyTree 1 = .split) (fits : bytes / 2 < size ∧ size ≤ bytes)
    (rounds : Nat) :
    internalAllocLoop size (rounds + 4) ⟨1, bytes, memory, .down⟩ ia =
      internalAllocLoop size rounds ⟨2, bytes, memory + bytes, .down⟩ ia := by
  have inner : ¬ isLeaf 1 := inner_of_small 1 (by decide)
  have double : u64 (bytes * 2) = bytes * 2 := u64_eq (by omega)
  have leave : internalAllocStep size ⟨1, bytes, memory, .down⟩ ia =
      .search ⟨0, bytes * 2, sub64 memory bytes, .upRight⟩ ia := by
    rw [visit_whole _ _ inner rfl fits, split]
    simp [Search.up, double]
  have again : u64 (bytes * 2 * 2) / 2 = bytes * 2 := by
    rw [u64_eq (by omega), Nat.mul_div_cancel _ (by decide)]
  have turn : u64 (sub64 memory bytes + bytes * 2) = memory + bytes := by
    unfold sub64 u64
    omega
  have half : bytes * 2 / 2 = bytes := Nat.mul_div_cancel bytes (by decide)
  have tooLarge : ¬ (bytes < size ∧ size ≤ bytes * 2) := by omega
  have enter : internalAllocStep size ⟨1, bytes * 2, memory + bytes, .down⟩ ia =
      .search ⟨2, bytes, memory + bytes, .down⟩ ia := by
    rw [internalAllocStep, if_neg inner]
    simp only [split, half, if_neg tooLarge, Search.left, Nat.one_mul]
  calc internalAllocLoop size (rounds + 4) ⟨1, bytes, memory, .down⟩ ia
      = internalAllocLoop size (rounds + 3) ⟨0, bytes * 2, sub64 memory bytes, .upRight⟩ ia :=
        internalAllocLoop_search (by simp) leave
    _ = internalAllocLoop size (rounds + 1) ⟨1, bytes * 2, memory + bytes, .down⟩ ia := by
        rw [internalAllocLoop_above, again, turn]
    _ = internalAllocLoop size rounds ⟨2, bytes, memory + bytes, .down⟩ ia :=
        internalAllocLoop_search (by simp) enter

/-- From the left half the loop goes to the right one, and from there back to the root. -/
theorem internalAllocLoop_halves (ia : IntAlloc) (width : bytes * 4 < 2 ^ 64)
    (fits : bytes / 2 < size ∧ size ≤ bytes) (rounds ptr : Nat) :
    internalAllocLoop size (rounds + 4) ⟨2, bytes, ptr, .down⟩ ia =
      if getTreeItem ia.buddyTree 2 = .free then
        .ok (some ptr) (takeNode ⟨2, bytes, ptr, .down⟩ ia)
      else if getTreeItem ia.buddyTree 3 = .free then
        .ok (some (u64 (ptr + bytes))) (takeNode ⟨3, bytes, u64 (ptr + bytes), .down⟩ ia)
      else .ok none ia := by
  have left := visit_whole ⟨2, bytes, ptr, .down⟩ ia (inner_of_small 2 (by decide)) rfl fits
  have right := visit_whole ⟨3, bytes, u64 (ptr + bytes), .down⟩ ia
    (inner_of_small 3 (by decide)) rfl fits
  have double : u64 (bytes * 2) = bytes * 2 := u64_eq (by omega)
  have half : bytes * 2 / 2 = bytes := Nat.mul_div_cancel bytes (by decide)
  have upLeft : Search.up ⟨2, bytes, ptr, .down⟩ = ⟨1, bytes * 2, ptr, .upLeft⟩ := by
    simp [Search.up, double]
  by_cases freeLeft : getTreeItem ia.buddyTree 2 = .free
  · rw [if_pos freeLeft] at left ⊢
    exact internalAllocLoop_found (by simp) left
  · rw [if_neg freeLeft, upLeft] at left
    rw [if_neg freeLeft]
    have turn : internalAllocStep size ⟨1, bytes * 2, ptr, .upLeft⟩ ia =
        .search ⟨3, bytes, u64 (ptr + bytes), .down⟩ ia := by
      rw [internalAllocStep, if_neg (inner_of_small 1 (by decide))]
      simp only [Search.right, half]
    have moved : internalAllocLoop size (rounds + 4) ⟨2, bytes, ptr, .down⟩ ia =
        internalAllocLoop size (rounds + 2) ⟨3, bytes, u64 (ptr + bytes), .down⟩ ia :=
      (internalAllocLoop_search (by simp) left).trans (internalAllocLoop_search (by simp) turn)
    rw [moved]
    by_cases freeRight : getTreeItem ia.buddyTree 3 = .free
    · rw [if_pos freeRight] at right ⊢
      exact internalAllocLoop_found (by simp) right
    · rw [if_neg freeRight] at right ⊢
      rw [internalAllocLoop_search (by simp) right, internalAllocLoop]
      simp [Search.up]

/-- On a root that is in use the loop never comes to its end. -/
theorem internalAllocLoop_endless (taken : getTreeItem ia.buddyTree 1 = .full ∨
    getTreeItem ia.buddyTree 1 = .used) (rounds : Nat) : ∀ curSize ptr,
    internalAllocLoop size rounds ⟨1, curSize, ptr, .down⟩ ia = .fuel := by
  have leave : ∀ curSize ptr, internalAllocStep size ⟨1, curSize, ptr, .down⟩ ia =
      .search ⟨0, u64 (curSize * 2), sub64 ptr curSize, .upRight⟩ ia := by
    intro curSize ptr
    rw [internalAllocStep, if_neg (inner_of_small 1 (by decide))]
    rcases taken with full | used
    · simp only [full]
      simp [Search.up]
    · simp only [used]
      simp [Search.up]
  induction rounds using Nat.strong_induction_on with
  | _ rounds ih =>
      intro curSize ptr
      rcases rounds with rfl | rfl | rfl | rounds
      · rfl
      · rw [internalAllocLoop_search (by simp) (leave curSize ptr)]
        rfl
      · rw [internalAllocLoop_search (by simp) (leave curSize ptr),
          internalAllocLoop_search (by simp) (visit_above _ _)]
        rfl
      · rw [internalAllocLoop_search (by simp) (leave curSize ptr), internalAllocLoop_above]
        exact ih rounds (by omega) _ _

end Escape

section States

variable {root size : Nat} {ia : IntAlloc} {live : List IaBlock}

/-- A full tree leaves no memory, and any other one leaves some. -/
theorem IntAlloc.Valid.full_iff (valid : ia.Valid) : ia.tree.full = true ↔ ia.freeMem = 0 := by
  have total := valid.freeMem
  rw [internalAllocChunkSizeBytes_eq] at total
  constructor
  · intro full
    have all := Buddy.units_full 0 valid.wellFormed full
    omega
  · intro empty
    by_contra notFull
    have space : ia.tree.full = false := by simpa using notFull
    rcases Buddy.not_full_uncovered (b := 0) (h := 18) space with ⟨unit, low, high, uncovered⟩
    have place : Buddy.Place 0 0 18 ia.tree unit := by
      refine ⟨by simp, low, by simpa using high, ?_⟩
      intro part member
      have outside := uncovered part member
      unfold Buddy.Inside at outside
      unfold Buddy.Apart
      simp only
      omega
    have lowest := Buddy.alloc_lowest valid.wellFormed (Nat.zero_le 18) (Nat.dvd_zero _)
    cases taken : Buddy.alloc 0 18 ia.tree with
    | none =>
        rw [taken] at lowest
        exact lowest unit place
    | some result =>
        have added := Buddy.units_perm (Buddy.alloc_blocks (b := 0) (Nat.zero_le 18) taken)
        have bound := Buddy.units_le 0 18 result.2
        simp only [Buddy.units_cons] at added
        omega

/-- A half of the tree is free when all live blocks are outside of it. -/
theorem half_free_iff (blocks : LiveBlocks root ia live) {half : Buddy} {b : Nat}
    (wf : Buddy.WellFormed 17 half)
    (inside : ∀ part ∈ Buddy.blocks b 17 half, part ∈ Buddy.blocks 0 18 ia.tree)
    (others : ∀ part ∈ Buddy.blocks 0 18 ia.tree, part ∈ Buddy.blocks b 17 half ∨
      part.1 + 2 ^ part.2 ≤ b ∨ b + 131072 ≤ part.1) :
    (∀ block ∈ live, block.Outside (intAllocMemory root + 32 * b) halfBytes) ↔
      half = .free := by
  constructor
  · intro outside
    by_contra taken
    rcases List.exists_mem_of_ne_nil _ (Buddy.blocks_ne_nil (b := b) wf taken) with
      ⟨part, member⟩
    rcases blocks.block (inside part member) with ⟨block, isLive, ptr, height⟩
    have bounds := Buddy.block_bounds member
    have apart := outside block isLive
    have width := Nat.two_pow_pos part.2
    unfold IaBlock.Outside IaBlock.size halfBytes at apart
    rw [ptr, height] at apart
    norm_num at bounds
    omega
  · intro free block isLive
    rcases blocks.part isLive with ⟨offset, ptr, inTree⟩
    have side := others _ inTree
    rw [free, Buddy.blocks_free] at side
    simp only [List.not_mem_nil, false_or] at side
    unfold IaBlock.Outside IaBlock.size halfBytes
    rw [ptr]
    omega

theorem left_free_iff (valid : ia.Valid) (blocks : LiveBlocks root ia live) {left right : Buddy}
    (node : ia.tree = .node left right) :
    (∀ block ∈ live, block.Outside (intAllocMemory root) halfBytes) ↔ left = .free := by
  have wf := valid.wellFormed
  rw [node] at wf
  refine half_free_iff (b := 0) blocks wf.1 ?_ ?_
  · intro part member
    rw [node]
    exact List.mem_append_left _ member
  · intro part member
    rw [node] at member
    rcases List.mem_append.mp member with here | there
    · exact Or.inl here
    · have bounds := Buddy.block_bounds there
      norm_num at bounds
      omega

theorem right_free_iff (valid : ia.Valid) (blocks : LiveBlocks root ia live) {left right : Buddy}
    (node : ia.tree = .node left right) :
    (∀ block ∈ live, block.Outside (intAllocMemory root + halfBytes) halfBytes) ↔
      right = .free := by
  have wf := valid.wellFormed
  rw [node] at wf
  refine half_free_iff (b := 0 + 2 ^ 17) blocks wf.2.1 ?_ ?_
  · intro part member
    rw [node]
    exact List.mem_append_right _ member
  · intro part member
    rw [node] at member
    rcases List.mem_append.mp member with there | here
    · have bounds := Buddy.block_bounds there
      norm_num at bounds
      omega
    · exact Or.inl here

/-- With live blocks and more than half of the memory left, the root is split and its halves
are not both full. -/
theorem root_split (valid : ia.Valid) (blocks : LiveBlocks root ia live) (some : live ≠ [])
    (space : ia.freeMem ≠ 0) : ∃ left right, ia.tree = .node left right ∧
      getTreeItem ia.buddyTree 1 = .split ∧
      (getTreeItem ia.buddyTree 2 = .free ↔ left = .free) ∧
      (getTreeItem ia.buddyTree 3 = .free ↔ right = .free) := by
  have notFull : ¬ ia.tree.full = true := fun full => space (valid.full_iff.mp full)
  have rep := valid.represents
  have rootFree : ∀ t : Buddy, rootState t = .free ↔ t = .free := by
    intro t
    cases t with
    | free => simp [rootState]
    | used => simp [rootState]
    | node left right =>
        cases both : left.full && right.full <;> simp [rootState, both]
  cases tree : ia.tree with
  | free =>
      have none := blocks.length_eq
      unfold IntAlloc.blocks at none
      rw [tree] at none
      simp only [List.length_map, Buddy.blocks_free, List.length_nil] at none
      exact absurd (List.eq_nil_of_length_eq_zero none) some
  | used =>
      rw [tree] at notFull
      exact absurd rfl notFull
  | node left right =>
      rw [tree] at rep notFull
      have parts := (represents_node _ _ 17 _ _).mp rep
      refine ⟨left, right, rfl, ?_, ?_, ?_⟩
      · rw [parts.1]
        exact if_neg notFull
      · rw [parts.2.1.root, rootFree]
      · rw [parts.2.2.root, rootFree]

/-- A new block of the tree is inside `memory` and apart from the live blocks. -/
theorem settles_of_block {ia' : IntAlloc} {rounds ptr : Nat} (blocks : LiveBlocks root ia live)
    (call : internalAllocRounds root size rounds ia = .ok (some ptr) ia')
    (added : (ia'.blocks root).Perm ((ptr, blockHeight size) :: ia.blocks root)) :
    Settles root size ia live := by
  refine ⟨rounds, some ptr, ia', call, by simp, ?_⟩
  intro ptr' same
  injection same with same
  subst same
  have holds := (blockHeight_spec size).1
  have bounds := IntAlloc.block_bounds (added.mem_iff.mpr List.mem_cons_self)
  have parts := (List.Perm.pairwise_iff (fun apart => Or.symm apart) added).mp
    (IntAlloc.blocks_apart root ia')
  refine ⟨bounds.1, by omega, ?_⟩
  intro block isLive
  have apart := List.rel_of_pairwise_cons parts
    (blocks.mem_iff.mp (List.mem_map.mpr ⟨block, isLive, rfl⟩))
  unfold IaBlock.size
  simp only at apart
  omega

/-- More than half of a free root takes all of it. -/
theorem internalAllocRounds_whole (root : Nat) (valid : ia.Valid) (free : ia.tree = .free)
    (large : halfBytes < size) (guard : ¬ ia.freeMem < size) :
    ∃ ia', internalAllocRounds root size 1 ia = .ok (some (intAllocMemory root)) ia' ∧
      ia'.Valid ∧
      (ia'.blocks root).Perm ((intAllocMemory root, blockHeight size) :: ia.blocks root) := by
  have total := valid.freeMem
  rw [free, Buddy.blocks_free, Buddy.units_nil] at total
  have rep := valid.represents
  rw [free, represents_free] at rep
  have half : internalAllocChunkSizeBytes / 2 = halfBytes := rfl
  have height : blockHeight size = 18 := by
    have least := blockHeight_spec size
    have fits : blockHeight size ≤ 18 :=
      blockHeight_le (by rw [← internalAllocChunkSizeBytes_eq]; omega)
    by_contra less
    have holds := least.1
    have few : 2 ^ blockHeight size ≤ 2 ^ 17 := Nat.pow_le_pow_right (by decide) (by omega)
    unfold halfBytes at large
    norm_num at few
    omega
  have fitsWhole : internalAllocChunkSizeBytes / 2 < size ∧ size ≤ internalAllocChunkSizeBytes :=
    ⟨by rw [half]; exact large, by omega⟩
  have found := visit_whole ⟨1, internalAllocChunkSizeBytes, intAllocMemory root, .down⟩ ia
    (inner_of_small 1 (by decide)) rfl fitsWhole
  rw [if_pos rep] at found
  have taken : getTreeItem
      (takeNode ⟨1, internalAllocChunkSizeBytes, intAllocMemory root, .down⟩ ia).buddyTree 1 =
        .used := by
    simp only [takeNode]
    rw [coalesceFullNodes_root, getTreeItem_set_same _ _ (by decide)]
  have nothing :
      (takeNode ⟨1, internalAllocChunkSizeBytes, intAllocMemory root, .down⟩ ia).freeMem = 0 := by
    simp only [takeNode]
    rw [sub64_eq (by omega) (by unfold internalAllocChunkSizeBytes at total; omega)]
    omega
  rcases IntAlloc.valid_of (Buddy.wellFormed_used 18) ((represents_used _ _ _).mpr taken)
    (by rw [nothing, Buddy.blocks_used]; decide) with ⟨tree, valid'⟩
  refine ⟨_, ?_, valid', ?_⟩
  · rw [internalAllocRounds, if_neg guard]
    exact internalAllocLoop_found (by simp) found
  · unfold IntAlloc.blocks
    rw [tree, free, height]
    simp

/-- More than half of a split root: the two halves decide what the search comes to. -/
theorem internalAllocRounds_halves (space : root + intAllocSizeof < 2 ^ 64)
    (split : getTreeItem ia.buddyTree 1 = .split) (large : halfBytes < size)
    (small : size ≤ internalAllocChunkSizeBytes) (guard : ¬ ia.freeMem < size) :
    (getTreeItem ia.buddyTree 2 ≠ .free → getTreeItem ia.buddyTree 3 ≠ .free →
      internalAllocRounds root size 8 ia = .ok none ia) ∧
    ((getTreeItem ia.buddyTree 2 = .free ∨ getTreeItem ia.buddyTree 3 = .free) →
      ∃ ptr ia', internalAllocRounds root size 8 ia = .ok (some ptr) ia' ∧
        ¬ (intAllocMemory root ≤ ptr ∧
          ptr + size ≤ intAllocMemory root + internalAllocChunkSizeBytes)) := by
  have width : internalAllocChunkSizeBytes * 4 < 2 ^ 64 := by decide
  have half : internalAllocChunkSizeBytes / 2 = halfBytes := rfl
  have word : intAllocMemory root + internalAllocChunkSizeBytes < 2 ^ 64 := by
    rwa [intAllocMemory_end]
  have fits : internalAllocChunkSizeBytes / 2 < size ∧ size ≤ internalAllocChunkSizeBytes :=
    ⟨by rw [half]; exact large, small⟩
  have escape := internalAllocLoop_escape word width split fits 4
  have halves := internalAllocLoop_halves ia width fits 0
    (intAllocMemory root + internalAllocChunkSizeBytes)
  have start : internalAllocRounds root size 8 ia = internalAllocLoop size (4 + 4)
      ⟨1, internalAllocChunkSizeBytes, intAllocMemory root, .down⟩ ia := by
    rw [internalAllocRounds, if_neg guard]
  have outcome := (start.trans escape).trans halves
  have behind : ∀ ptr, ptr = intAllocMemory root + internalAllocChunkSizeBytes ∨
      ptr = u64 (intAllocMemory root + internalAllocChunkSizeBytes +
        internalAllocChunkSizeBytes) →
      ¬ (intAllocMemory root ≤ ptr ∧
        ptr + size ≤ intAllocMemory root + internalAllocChunkSizeBytes) := by
    intro ptr either
    unfold halfBytes at large
    unfold u64 at either
    unfold internalAllocChunkSizeBytes at *
    omega
  constructor
  · intro left right
    rw [if_neg left, if_neg right] at outcome
    exact outcome
  · intro either
    by_cases left : getTreeItem ia.buddyTree 2 = .free
    · rw [if_pos left] at outcome
      exact ⟨_, _, outcome, behind _ (Or.inl rfl)⟩
    · have right := either.resolve_left left
      rw [if_neg left, if_pos right] at outcome
      exact ⟨_, _, outcome, behind _ (Or.inr rfl)⟩

theorem tree_free (valid : ia.Valid) (blocks : LiveBlocks root ia live) (none : live = []) :
    ia.tree = .free := by
  by_contra taken
  rcases List.exists_mem_of_ne_nil _ (Buddy.blocks_ne_nil (b := 0) valid.wellFormed taken) with
    ⟨part, member⟩
  rcases blocks.block member with ⟨block, isLive, -⟩
  rw [none] at isLive
  exact List.not_mem_nil isLive

/-- What a call does that the search survives. -/
theorem internalAllocRounds_survives (valid : ia.Valid) (blocks : LiveBlocks root ia live)
    (space : root + intAllocSizeof < 2 ^ 64) (survives : ¬ Misled root size ia live) :
    (∃ rounds, internalAllocRounds root size rounds ia = .ok none ia) ∨
      ∃ rounds ptr ia', internalAllocRounds root size rounds ia = .ok (some ptr) ia' ∧
        ia'.Valid ∧ (ia'.blocks root).Perm ((ptr, blockHeight size) :: ia.blocks root) := by
  by_cases guard : ia.freeMem < size
  · exact Or.inl ⟨0, by rw [internalAllocRounds, if_pos guard]⟩
  · have total := valid.freeMem
    rcases Nat.lt_or_ge halfBytes size with large | small
    · by_cases none : live = []
      · rcases internalAllocRounds_whole root valid (tree_free valid blocks none) large
          guard with ⟨ia', call, rest⟩
        exact Or.inr ⟨1, _, ia', call, rest⟩
      · rcases root_split valid blocks none (by omega) with
          ⟨left, right, node, split, freeLeft, freeRight⟩
        have oneHalf : ¬ (left = .free ∨ right = .free) := by
          intro either
          rw [← left_free_iff valid blocks node, ← right_free_iff valid blocks node] at either
          exact survives (Or.inr ⟨large, by omega, none, either⟩)
        have halves := (internalAllocRounds_halves space split large (by omega)
          guard).1
        refine Or.inl ⟨8, halves ?_ ?_⟩
        · intro free
          exact oneHalf (Or.inl (freeLeft.mp free))
        · intro free
          exact oneHalf (Or.inr (freeRight.mp free))
    · have notFull : ia.tree.full = false := by
        by_contra full
        have empty := valid.full_iff.mp (by simpa using full)
        exact survives (Or.inl ⟨by omega, empty⟩)
      have opened := internalAlloc_open valid space small guard notFull
      have fits : blockHeight size ≤ 18 :=
        (blockHeight_le (h := 17) small).trans (by decide)
      cases taken : Buddy.alloc (blockHeight size) 18 ia.tree with
      | none =>
          rw [taken] at opened
          exact Or.inl ⟨internalAllocFuel, opened⟩
      | some result =>
          rcases result with ⟨offset, rest⟩
          rw [taken] at opened
          rcases opened with ⟨ia', call, tree, valid'⟩
          exact Or.inr ⟨internalAllocFuel, _, ia', call, valid',
            IntAlloc.blocks_alloc fits taken tree⟩

/-- What a call does that the search does not survive. -/
theorem not_settles_of_misled (valid : ia.Valid) (blocks : LiveBlocks root ia live)
    (space : root + intAllocSizeof < 2 ^ 64) (misled : Misled root size ia live) :
    ¬ Settles root size ia live := by
  intro settles
  rcases settles with ⟨rounds, result, ia', call, -, inside⟩
  rcases misled with ⟨zero, empty⟩ | ⟨large, enough, some, either⟩
  · have taken : getTreeItem ia.buddyTree 1 = .full ∨ getTreeItem ia.buddyTree 1 = .used := by
      have full := valid.full_iff.mpr empty
      rw [valid.represents.root]
      cases tree : ia.tree with
      | free =>
          rw [tree] at full
          exact absurd full (by simp [Buddy.full])
      | used => exact Or.inr rfl
      | node left right =>
          rw [tree] at full
          exact Or.inl (if_pos full)
    rw [internalAllocRounds, if_neg (by omega), internalAllocLoop_endless taken] at call
    simp at call
  · have total := valid.freeMem
    rcases root_split valid blocks some (by omega) with
      ⟨left, right, node, split, freeLeft, freeRight⟩
    rw [left_free_iff valid blocks node, right_free_iff valid blocks node, ← freeLeft,
      ← freeRight] at either
    rcases (internalAllocRounds_halves space split large (by omega)
      (by omega)).2 either with ⟨ptr, ia'', found, outside⟩
    have same := (internalAllocRounds_unique call found).1
    have bounds := inside ptr same
    exact outside ⟨bounds.1, bounds.2.1⟩

end States

/-- What holds of the state and the live blocks in every run. -/
theorem iaAnyRun_invariant {root : Nat} {ia : IntAlloc} {live : List IaBlock}
    (space : root + intAllocSizeof < 2 ^ 64) (run : IaAnyRun root ia live) :
    ia.Valid ∧ LiveBlocks root ia live := by
  induction run with
  | init ia => exact iaRun_invariant space (IaRun.init ia)
  | @alloc ia ia' live size rounds ptr before survives call ih =>
      rcases ih with ⟨valid, blocks⟩
      rcases internalAllocRounds_survives valid blocks space survives with
        ⟨enough, none⟩ | ⟨enough, ptr', ia'', taken, valid', added⟩
      · have same := (internalAllocRounds_unique call none).1
        simp at same
      · have same := internalAllocRounds_unique call taken
        injection same.1 with samePtr
        rw [same.2, samePtr]
        exact ⟨valid', (blocks.cons _).trans added.symm⟩
  | @refuse ia ia' live size rounds before survives call ih =>
      rcases ih with ⟨valid, blocks⟩
      rcases internalAllocRounds_survives valid blocks space survives with
        ⟨enough, none⟩ | ⟨enough, ptr', ia'', taken, valid', added⟩
      · rw [(internalAllocRounds_unique call none).2]
        exact ⟨valid, blocks⟩
      · have same := (internalAllocRounds_unique call taken).1
        simp at same
  | @free ia ia' live block before member call ih =>
      rcases ih with ⟨valid, blocks⟩
      have inTree : (block.ptr, blockHeight block.request) ∈ ia.blocks root :=
        blocks.mem_iff.mp (List.mem_map.mpr ⟨block, member, rfl⟩)
      rcases internalFree_valid valid inTree with ⟨ia'', freed, valid', removed⟩
      have same := freed.symm.trans call
      rw [Outcome.ok.injEq] at same
      rw [← same.2]
      have shifted := (((List.perm_cons_erase member).map _).symm.trans blocks).trans removed
      exact ⟨valid', (List.perm_cons _).mp shifted⟩

end Sealloc
