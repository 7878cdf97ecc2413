import Sealloc.InternalAllocator.Canonical
import Sealloc.Library.BuddyFit

/-! Which block `internal_alloc` returns: the lowest free one of the rounded size. -/

namespace Sealloc

open Library

/-- The rounded size of a request. -/
def roundedSize (size : Nat) : Nat := 32 * 2 ^ blockHeight size

theorem roundedSize_least (size : Nat) :
    (∃ e, roundedSize size = 2 ^ e) ∧ max size 32 ≤ roundedSize size ∧
      ∀ e, max size 32 ≤ 2 ^ e → roundedSize size ≤ 2 ^ e := by
  have power : roundedSize size = 2 ^ (5 + blockHeight size) := by
    unfold roundedSize
    rw [Nat.pow_add]
  have some := Nat.two_pow_pos (blockHeight size)
  refine ⟨⟨_, power⟩, ?_, ?_⟩
  · have holds := (blockHeight_spec size).1
    unfold roundedSize
    omega
  · intro e enough
    have low : 5 ≤ e := by
      by_contra less
      have short : 2 ^ e ≤ 2 ^ 4 := Nat.pow_le_pow_right (by decide) (by omega)
      omega
    have split : 2 ^ e = 32 * 2 ^ (e - 5) := by
      rw [show 32 = 2 ^ 5 from rfl, ← Nat.pow_add, show 5 + (e - 5) = e by omega]
    have height : blockHeight size ≤ e - 5 := blockHeight_le (by omega)
    rw [power]
    exact Nat.pow_le_pow_right (by decide) (by omega)

/-- The `j`-th block of the rounded size in `memory` is disjoint from all live blocks. -/
def FreeBlock (root : Nat) (live : List IaBlock) (size j : Nat) : Prop :=
  (j + 1) * roundedSize size ≤ internalAllocChunkSizeBytes ∧
    ∀ block ∈ live, block.Outside (intAllocMemory root + j * roundedSize size) (roundedSize size)

section FirstFit

variable {root size : Nat} {ia : IntAlloc} {live : List IaBlock}

theorem block_start (size j : Nat) :
    j * roundedSize size = 32 * (2 ^ blockHeight size * j) ∧ (j + 1) * roundedSize size =
      32 * (2 ^ blockHeight size * j) + 32 * 2 ^ blockHeight size := by
  have start : j * roundedSize size = 32 * (2 ^ blockHeight size * j) := by
    unfold roundedSize
    rw [Nat.mul_comm, Nat.mul_assoc]
  refine ⟨start, ?_⟩
  rw [Nat.succ_mul, start]
  rfl

/-- A free block is a place in every tree whose blocks are live. -/
theorem FreeBlock.place {j : Nat} {t : Buddy} (free : FreeBlock root live size j)
    (inLive : ∀ part ∈ Buddy.blocks 0 18 t, ∃ block ∈ live,
      block.ptr = intAllocMemory root + 32 * part.1 ∧ blockHeight block.request = part.2) :
    Buddy.Place (blockHeight size) 0 18 t (2 ^ blockHeight size * j) := by
  rcases block_start size j with ⟨start, next⟩
  unfold FreeBlock at free
  rw [next, internalAllocChunkSizeBytes_eq] at free
  refine ⟨Nat.dvd_mul_right _ _, Nat.zero_le _, ?_, ?_⟩
  · have inside := free.1
    omega
  · intro part member
    rcases inLive part member with ⟨block, isLive, ptr, height⟩
    have outside := free.2 block isLive
    unfold IaBlock.Outside IaBlock.size at outside
    rw [ptr, height, start] at outside
    unfold roundedSize at outside
    unfold Buddy.Apart
    simp only
    omega

theorem freeBlock_place (blocks : LiveBlocks root ia live) (j : Nat) :
    FreeBlock root live size j ↔
      Buddy.Place (blockHeight size) 0 18 ia.tree (2 ^ blockHeight size * j) := by
  rcases block_start size j with ⟨start, next⟩
  constructor
  · intro free
    exact free.place fun part => blocks.block
  · intro place
    unfold FreeBlock
    rw [next, internalAllocChunkSizeBytes_eq]
    refine ⟨?_, ?_⟩
    · have inside := place.high
      omega
    · intro block isLive
      rcases blocks.part isLive with ⟨offset, ptr, member⟩
      have apart := place.apart _ member
      unfold Buddy.Apart at apart
      unfold IaBlock.Outside IaBlock.size
      rw [ptr, start]
      unfold roundedSize
      simp only at apart
      omega

theorem place_block {o : Nat} {t : Buddy} {k : Nat} (place : Buddy.Place k 0 18 t o) :
    ∃ j, o = 2 ^ k * j := place.aligned

/-- In every run, `internal_alloc` returns the lowest free block of the rounded size; where
there is none it returns null and changes nothing. -/
theorem internalAlloc_firstFit (space : root + intAllocSizeof < 2 ^ 64)
    (run : IaRun root ia live) (positive : 1 ≤ size) (small : size ≤ 4194304) :
    ((∃ e, roundedSize size = 2 ^ e) ∧ max size 32 ≤ roundedSize size ∧
      ∀ e, max size 32 ≤ 2 ^ e → roundedSize size ≤ 2 ^ e) ∧
    ((∃ ia', internalAlloc root size ia = .ok none ia') ↔ ∀ j, ¬ FreeBlock root live size j) ∧
    (∀ ia', internalAlloc root size ia = .ok none ia' → ia' = ia) ∧
    ∀ j, FreeBlock root live size j → (∀ i < j, ¬ FreeBlock root live size i) →
      ∃ ia', internalAlloc root size ia =
        .ok (some (intAllocMemory root + j * roundedSize size)) ia' := by
  rcases iaRun_invariant space run with ⟨valid, blocks⟩
  have refines := internalAlloc_refines valid space positive small
  have fits : blockHeight size ≤ 18 := blockHeight_le (by omega)
  have lowest := Buddy.alloc_lowest valid.wellFormed fits (Nat.dvd_zero _)
  refine ⟨roundedSize_least size, ?_⟩
  cases taken : Buddy.alloc (blockHeight size) 18 ia.tree with
  | none =>
      rw [taken] at refines lowest
      have full : ∀ j, ¬ FreeBlock root live size j := by
        intro j free
        exact lowest _ ((freeBlock_place blocks j).mp free)
      refine ⟨⟨fun _ => full, fun _ => ⟨ia, refines⟩⟩, ?_, ?_⟩
      · intro ia' call
        have same := refines.symm.trans call
        rw [Outcome.ok.injEq] at same
        exact same.2.symm
      · intro j free
        exact absurd free (full j)
  | some result =>
      rcases result with ⟨offset, rest⟩
      rw [taken] at refines lowest
      rcases refines with ⟨ia', call, -, -⟩
      simp only [Nat.zero_add] at lowest
      rcases place_block lowest.1 with ⟨j, startAt⟩
      have free : FreeBlock root live size j := by
        rw [freeBlock_place blocks, ← startAt]
        exact lowest.1
      refine ⟨⟨?_, ?_⟩, ?_, ?_⟩
      · intro refused
        rcases refused with ⟨ia'', none⟩
        rw [call] at none
        simp at none
      · intro full
        exact absurd free (full j)
      · intro ia'' none
        rw [call] at none
        simp at none
      · intro i freeI least
        have below : j ≤ i := by
          by_contra less
          have start := lowest.2 _ ((freeBlock_place blocks i).mp freeI)
          rw [startAt] at start
          have := Nat.le_of_mul_le_mul_left start (Nat.two_pow_pos _)
          omega
        have same : j = i := by
          by_contra different
          exact least j (by omega) free
        refine ⟨ia', ?_⟩
        rw [call, ← same, startAt]
        unfold roundedSize
        rw [Nat.mul_comm j, Nat.mul_assoc]

/-- The first block of a fresh allocator. -/
theorem internalAlloc_firstFit_once : ∃ ia, IaRun 4096 ia [] ∧
    ∃ ia', internalAlloc 4096 100 ia = .ok (some (intAllocMemory 4096)) ia' := by
  have run : IaRun 4096 (internalAllocatorInit ⟨0, fun _ => 0⟩) [] := .init _
  have found := (@internalAlloc_firstFit 4096 100 _ _ (by decide) run (by decide)
    (by decide)).2.2.2 0
  have size : roundedSize 100 = 128 := by
    have height : blockHeight 100 = 2 := by decide
    unfold roundedSize
    rw [height]
    norm_num
  refine ⟨_, run, ?_⟩
  have free : FreeBlock 4096 [] 100 0 := by
    refine ⟨?_, by simp⟩
    rw [size]
    decide
  have call := found free (by omega)
  rwa [Nat.zero_mul, Nat.add_zero] at call

end FirstFit

end Sealloc
