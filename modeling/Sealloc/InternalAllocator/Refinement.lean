import Sealloc.InternalAllocator.Search
import Sealloc.InternalAllocator.Release

/-! One internal allocator as a buddy tree: what its two operations do to the blocks. -/

namespace Sealloc

open Library

/-- The tree that the bytes from node `idx` on represent. -/
def readTree (mem : Nat → Byte) : Nat → Nat → Buddy
  | 0, idx => if getTreeItem mem idx = .free then .free else .used
  | h + 1, idx =>
      match getTreeItem mem idx with
      | .free => .free
      | .used => .used
      | _ => .node (readTree mem h (idx * 2)) (readTree mem h (idx * 2 + 1))

theorem Represents.readTree_eq {mem : Nat → Byte} {idx h : Nat} {t : Buddy}
    (rep : Represents mem idx h t) : readTree mem h idx = t := by
  induction t generalizing idx h with
  | free =>
      have state := (represents_free _ _ _).mp rep
      cases h <;> simp [readTree, state]
  | used =>
      have state := (represents_used _ _ _).mp rep
      cases h <;> simp [readTree, state]
  | node left right ihl ihr =>
      cases h with
      | zero => exact rep.elim
      | succ h =>
          obtain ⟨root, repLeft, repRight⟩ := rep
          rw [readTree, ihl repLeft, ihr repRight, root]
          cases both : left.full && right.full <;> simp [rootState, both]

/-- The height of the least block that holds `size` bytes. -/
def blockHeight (size : Nat) : Nat := Nat.clog 2 ((size + 31) / 32)

theorem blockHeight_spec (size : Nat) : BlockHeight size (blockHeight size) := by
  constructor
  · have enough : (size + 31) / 32 ≤ 2 ^ Nat.clog 2 ((size + 31) / 32) :=
      Nat.le_pow_clog (by decide) _
    unfold blockHeight
    omega
  · intro j less
    have short : 2 ^ j < (size + 31) / 32 := (Nat.lt_clog_iff_pow_lt (by decide)).mp less
    omega

theorem blockHeight_le {size h : Nat} (small : size ≤ 32 * 2 ^ h) : blockHeight size ≤ h := by
  unfold blockHeight
  rw [Nat.clog_le_iff_le_pow (by decide)]
  have := Nat.two_pow_pos h
  omega

def IntAlloc.tree (ia : IntAlloc) : Buddy := readTree ia.buddyTree 18 1

/-- The blocks in use, each with its address and height. -/
def IntAlloc.blocks (root : Nat) (ia : IntAlloc) : List (Nat × Nat) :=
  (Buddy.blocks 0 18 ia.tree).map fun part => (intAllocMemory root + 32 * part.1, part.2)

/-- The bytes of an internal allocator stand for a tree, and `free_mem` is what it leaves. -/
structure IntAlloc.Valid (ia : IntAlloc) : Prop where
  wellFormed : Buddy.WellFormed 18 ia.tree
  represents : Represents ia.buddyTree 1 18 ia.tree
  freeMem : ia.freeMem + 32 * Buddy.units (Buddy.blocks 0 18 ia.tree) =
    internalAllocChunkSizeBytes

theorem IntAlloc.valid_of {ia : IntAlloc} {t : Buddy} (wf : Buddy.WellFormed 18 t)
    (rep : Represents ia.buddyTree 1 18 t)
    (freeMem : ia.freeMem + 32 * Buddy.units (Buddy.blocks 0 18 t) =
      internalAllocChunkSizeBytes) : ia.tree = t ∧ ia.Valid := by
  have same : ia.tree = t := rep.readTree_eq
  refine ⟨same, ?_, ?_, ?_⟩
  · rwa [same]
  · rwa [same]
  · rwa [same]

theorem internalAllocatorInit_valid (ia : IntAlloc) :
    (internalAllocatorInit ia).tree = .free ∧ (internalAllocatorInit ia).Valid := by
  refine IntAlloc.valid_of (Buddy.wellFormed_free 18) ?_ ?_
  · rw [represents_free]
    unfold internalAllocatorInit getTreeItem getCrumb
    simp only [Nat.sub_self, Nat.zero_div, Nat.zero_mod, Function.update_self]
    rfl
  · simp [internalAllocatorInit]

theorem internalAllocChunkSizeBytes_eq : internalAllocChunkSizeBytes = 32 * 2 ^ 18 := by
  norm_num [internalAllocChunkSizeBytes]

theorem intAllocMemory_end (root : Nat) :
    intAllocMemory root + internalAllocChunkSizeBytes = root + intAllocSizeof :=
  Nat.add_assoc _ _ _

section Operations

variable {root size : Nat} {ia : IntAlloc}

/-- A tree that is not full gives the block that `Buddy.alloc` takes. -/
theorem internalAlloc_open (valid : ia.Valid) (space : root + intAllocSizeof < 2 ^ 64)
    (small : size ≤ 4194304) (guard : ¬ ia.freeMem < size) (notFull : ia.tree.full = false) :
    match Buddy.alloc (blockHeight size) 18 ia.tree with
    | none => internalAlloc root size ia = .ok none ia
    | some (offset, rest) => ∃ ia',
        internalAlloc root size ia = .ok (some (intAllocMemory root + 32 * offset)) ia' ∧
          ia'.tree = rest ∧ ia'.Valid := by
  have least := blockHeight_spec size
  have fits : blockHeight size ≤ 17 := blockHeight_le (by omega)
  have total := valid.freeMem
  unfold internalAllocChunkSizeBytes at total
  have word : intAllocMemory root + 32 * 2 ^ 18 < 2 ^ 64 := by
    rwa [← intAllocMemory_end, internalAllocChunkSizeBytes_eq] at space
  have search := root_search least fits valid.wellFormed valid.represents notFull word
  have start : internalAlloc root size ia = internalAllocLoop size internalAllocFuel
      (searchAt 1 18 (intAllocMemory root) .down) ia := by
    simp only [internalAlloc, if_neg guard, searchAt, internalAllocChunkSizeBytes_eq]
  cases found : Buddy.alloc (blockHeight size) 18 ia.tree with
  | none =>
      rw [found] at search
      exact start.trans search
  | some result =>
      obtain ⟨offset, rest⟩ := result
      rw [found] at search
      obtain ⟨mem, rep, run⟩ := search
      have added := Buddy.units_perm (Buddy.alloc_blocks (b := 0) (by omega) found)
      have more : Buddy.units (Buddy.blocks 0 18 rest) =
          2 ^ blockHeight size + Buddy.units (Buddy.blocks 0 18 ia.tree) := by simpa using added
      have bound := Buddy.units_le 0 18 rest
      refine ⟨_, start.trans run, IntAlloc.valid_of ?_ rep ?_⟩
      · exact (Buddy.alloc_wellFormed valid.wellFormed found).1
      · simp only [sub64_eq (show 32 * 2 ^ blockHeight size ≤ ia.freeMem by omega) (by omega)]
        unfold internalAllocChunkSizeBytes
        omega

/-- `internal_alloc` takes the block that `Buddy.alloc` takes. -/
theorem internalAlloc_refines (valid : ia.Valid) (space : root + intAllocSizeof < 2 ^ 64)
    (positive : 1 ≤ size) (small : size ≤ 4194304) :
    match Buddy.alloc (blockHeight size) 18 ia.tree with
    | none => internalAlloc root size ia = .ok none ia
    | some (offset, rest) => ∃ ia',
        internalAlloc root size ia = .ok (some (intAllocMemory root + 32 * offset)) ia' ∧
          ia'.tree = rest ∧ ia'.Valid := by
  have total := valid.freeMem
  unfold internalAllocChunkSizeBytes at total
  by_cases guard : ia.freeMem < size
  · have nothing : internalAlloc root size ia = .ok none ia := by
      rw [internalAlloc, if_pos guard]
    cases found : Buddy.alloc (blockHeight size) 18 ia.tree with
    | none => exact nothing
    | some result =>
        obtain ⟨offset, rest⟩ := result
        have fits : blockHeight size ≤ 17 := blockHeight_le (by omega)
        have added := Buddy.units_perm (Buddy.alloc_blocks (b := 0) (by omega) found)
        have more : Buddy.units (Buddy.blocks 0 18 rest) =
            2 ^ blockHeight size + Buddy.units (Buddy.blocks 0 18 ia.tree) := by simpa using added
        have bound := Buddy.units_le 0 18 rest
        have holds := (blockHeight_spec size).1
        omega
  · have notFull : ia.tree.full = false := by
      by_contra full
      have all := Buddy.units_full 0 valid.wellFormed (by simpa using full)
      omega
    exact internalAlloc_open valid space small guard notFull

theorem internalFree_found {dest idx curSize : Nat}
    (find : internalFreeFind ia.buddyTree dest 19 1 (intAllocMemory root)
      internalAllocChunkSizeBytes = some (idx, curSize)) :
    internalFree root dest ia = .ok () {
      freeMem := u64 (ia.freeMem + curSize)
      buddyTree := coalesceFreeNodes (setTreeItem ia.buddyTree idx .free) idx } := by
  rw [internalFree, find, internalFreeNode]

/-- `internal_free` gives back the block at its argument. -/
theorem internalFree_refines {offset k : Nat} (valid : ia.Valid)
    (live : (offset, k) ∈ Buddy.blocks 0 18 ia.tree) :
    ∃ ia', internalFree root (intAllocMemory root + 32 * offset) ia = .ok () ia' ∧
      ia'.tree = Buddy.release offset 18 ia.tree ∧ ia'.Valid := by
  have at_ : AtHeight 1 18 := by constructor <;> norm_num
  have member : (0 + offset, k) ∈ Buddy.blocks 0 18 ia.tree := by rwa [Nat.zero_add]
  obtain ⟨node, mem, find, rep, -, passes⟩ :=
    internalFree_node (intAllocMemory root) 19 at_ valid.represents member (by decide)
  have finished : ∀ freed wasFull, finishFree freed wasFull mem 1 = mem := by
    intro freed wasFull
    unfold finishFree
    rw [coalesceFreeNodes_root, markNodesSplit_zero, ite_self, ite_self]
  rw [finished] at passes
  have removed := Buddy.units_perm (Buddy.release_blocks member)
  have total := valid.freeMem
  have bound := Buddy.units_le 0 18 ia.tree
  simp only [Buddy.units_cons] at removed
  unfold internalAllocChunkSizeBytes at total
  have freed : internalFree root (intAllocMemory root + 32 * offset) ia =
      .ok () { freeMem := u64 (ia.freeMem + 32 * 2 ^ k), buddyTree := mem } := by
    rw [← internalAllocChunkSizeBytes_eq] at find
    rw [internalFree_found find, passes]
  refine ⟨_, freed, IntAlloc.valid_of (Buddy.release_wellFormed offset valid.wellFormed) rep ?_⟩
  simp only [u64_eq (show ia.freeMem + 32 * 2 ^ k < 2 ^ 64 by omega)]
  unfold internalAllocChunkSizeBytes
  omega

end Operations

theorem IntAlloc.blocks_alloc {root k offset : Nat} {ia ia' : IntAlloc} {rest : Buddy}
    (fits : k ≤ 18) (taken : Buddy.alloc k 18 ia.tree = some (offset, rest))
    (tree : ia'.tree = rest) :
    (ia'.blocks root).Perm ((intAllocMemory root + 32 * offset, k) :: ia.blocks root) := by
  have added := Buddy.alloc_blocks (b := 0) fits taken
  rw [Nat.zero_add] at added
  unfold IntAlloc.blocks
  rw [tree]
  exact added.map _

theorem IntAlloc.blocks_release {root k offset : Nat} {ia ia' : IntAlloc}
    (member : (offset, k) ∈ Buddy.blocks 0 18 ia.tree)
    (tree : ia'.tree = Buddy.release offset 18 ia.tree) :
    (ia.blocks root).Perm ((intAllocMemory root + 32 * offset, k) :: ia'.blocks root) := by
  have removed := Buddy.release_blocks (b := 0) (h := 18) (t := ia.tree)
    (k := k) (by rwa [Nat.zero_add])
  rw [Nat.zero_add] at removed
  unfold IntAlloc.blocks
  rw [tree]
  exact removed.map _

theorem IntAlloc.mem_blocks {root ptr k : Nat} {ia : IntAlloc} (member : (ptr, k) ∈ ia.blocks root) :
    ∃ offset, ptr = intAllocMemory root + 32 * offset ∧
      (offset, k) ∈ Buddy.blocks 0 18 ia.tree := by
  obtain ⟨part, inTree, same⟩ := List.mem_map.mp member
  rw [Prod.mk.injEq] at same
  exact ⟨part.1, same.1.symm, by rw [← same.2]; exact inTree⟩

theorem IntAlloc.block_bounds {root ptr k : Nat} {ia : IntAlloc}
    (member : (ptr, k) ∈ ia.blocks root) :
    intAllocMemory root ≤ ptr ∧
      ptr + 32 * 2 ^ k ≤ intAllocMemory root + internalAllocChunkSizeBytes := by
  obtain ⟨offset, rfl, inTree⟩ := IntAlloc.mem_blocks member
  have bounds := Buddy.block_bounds inTree
  rw [internalAllocChunkSizeBytes_eq]
  simp only at bounds
  omega

/-- The blocks in use are disjoint. -/
theorem IntAlloc.blocks_apart (root : Nat) (ia : IntAlloc) :
    (ia.blocks root).Pairwise fun first second : Nat × Nat =>
      first.1 + 32 * 2 ^ first.2 ≤ second.1 ∨ second.1 + 32 * 2 ^ second.2 ≤ first.1 := by
  unfold IntAlloc.blocks
  rw [List.pairwise_map]
  refine (Buddy.blocks_apart 0 18 ia.tree).imp fun apart => ?_
  unfold Buddy.Apart at apart
  simp only
  omega

/-- A call of `internal_alloc` on a valid allocator returns: a new block, or nothing. -/
theorem internalAlloc_valid {root size : Nat} {ia : IntAlloc} (valid : ia.Valid)
    (space : root + intAllocSizeof < 2 ^ 64) (positive : 1 ≤ size) (small : size ≤ 4194304) :
    (∃ ptr ia', internalAlloc root size ia = .ok (some ptr) ia' ∧ ia'.Valid ∧
      (ia'.blocks root).Perm ((ptr, blockHeight size) :: ia.blocks root)) ∨
    internalAlloc root size ia = .ok none ia := by
  have refines := internalAlloc_refines valid space positive small
  cases taken : Buddy.alloc (blockHeight size) 18 ia.tree with
  | none =>
      rw [taken] at refines
      exact Or.inr refines
  | some result =>
      obtain ⟨offset, rest⟩ := result
      rw [taken] at refines
      obtain ⟨ia', run, tree, valid'⟩ := refines
      exact Or.inl ⟨_, ia', run, valid',
        IntAlloc.blocks_alloc (blockHeight_le (by omega)) taken tree⟩

/-- A call of `internal_free` on a block in use gives it back. -/
theorem internalFree_valid {root ptr k : Nat} {ia : IntAlloc} (valid : ia.Valid)
    (member : (ptr, k) ∈ ia.blocks root) :
    ∃ ia', internalFree root ptr ia = .ok () ia' ∧ ia'.Valid ∧
      (ia.blocks root).Perm ((ptr, k) :: ia'.blocks root) := by
  obtain ⟨offset, rfl, inTree⟩ := IntAlloc.mem_blocks member
  obtain ⟨ia', run, tree, valid'⟩ := internalFree_refines valid inTree
  exact ⟨ia', run, valid', IntAlloc.blocks_release inTree tree⟩

end Sealloc
