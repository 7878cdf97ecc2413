import Sealloc.InternalAllocator.Refinement

/-! Two internal allocators at one address: what the tree held before `internal_allocator_init`
does not show. -/

namespace Sealloc

open Library

/-- A call of one of the two operations. -/
inductive IaCall where
  | alloc (size : Nat)
  | free (ptr : Nat)
  deriving DecidableEq, Repr

/-- A sequence of calls: the pointer that each returns, if any, and `free_mem` after it. -/
def iaCalls (root : Nat) : List IaCall → Prog IntAlloc (List (Option Nat × Nat))
  | [] => return []
  | .alloc size :: calls => do
      let ptr ← internalAlloc root size
      let ia ← Prog.get
      let rest ← iaCalls root calls
      return (ptr, ia.freeMem) :: rest
  | .free ptr :: calls => do
      internalFree root ptr
      let ia ← Prog.get
      let rest ← iaCalls root calls
      return (none, ia.freeMem) :: rest

/-- A sequence asks for 1 byte to 4 MiB, and frees only what is live. -/
def Admissible (root : Nat) : List IaCall → IntAlloc → List Nat → Prop
  | [], _, _ => True
  | .alloc size :: calls, ia, live => 1 ≤ size ∧ size ≤ 4194304 ∧
      ∀ ptr ia', internalAlloc root size ia = .ok ptr ia' →
        Admissible root calls ia' (ptr.toList ++ live)
  | .free ptr :: calls, ia, live => ptr ∈ live ∧
      ∀ ia', internalFree root ptr ia = .ok () ia' → Admissible root calls ia' (live.erase ptr)

/-- Two allocators with the same tree, of which `live` are the blocks. -/
structure Twins (root : Nat) (ia twin : IntAlloc) (live : List Nat) : Prop where
  valid : ia.Valid
  valid' : twin.Valid
  tree : twin.tree = ia.tree
  live : live.Perm ((ia.blocks root).map Prod.fst)

section Twins

variable {root : Nat} {ia twin : IntAlloc} {live : List Nat}

theorem Twins.freeMem (twins : Twins root ia twin live) : twin.freeMem = ia.freeMem := by
  have total := twins.valid.freeMem
  have total' := twins.valid'.freeMem
  rw [twins.tree] at total'
  omega

/-- A call of `internal_alloc` on both: the same pointer, or nothing. -/
theorem Twins.alloc (twins : Twins root ia twin live) (space : root + intAllocSizeof < 2 ^ 64)
    {size : Nat} (positive : 1 ≤ size) (small : size ≤ 4194304) :
    ∃ ptr ia' twin', internalAlloc root size ia = .ok ptr ia' ∧
      internalAlloc root size twin = .ok ptr twin' ∧ Twins root ia' twin' (ptr.toList ++ live) := by
  have one := internalAlloc_refines twins.valid space positive small
  have two := internalAlloc_refines twins.valid' space positive small
  rw [twins.tree] at two
  cases taken : Buddy.alloc (blockHeight size) 18 ia.tree with
  | none =>
      rw [taken] at one two
      exact ⟨none, ia, twin, one, two, twins⟩
  | some result =>
      rcases result with ⟨offset, rest⟩
      rw [taken] at one two
      rcases one with ⟨ia', call, tree, valid⟩
      rcases two with ⟨twin', call', tree', valid'⟩
      refine ⟨_, ia', twin', call, call', valid, valid', tree'.trans tree.symm, ?_⟩
      have blocks : (ia'.blocks root).Perm
          ((intAllocMemory root + 32 * offset, blockHeight size) :: ia.blocks root) :=
        IntAlloc.blocks_alloc (blockHeight_le (by omega)) taken tree
      exact (twins.live.cons _).trans (blocks.map Prod.fst).symm

/-- A call of `internal_free` on both. -/
theorem Twins.free (twins : Twins root ia twin live) {ptr : Nat} (member : ptr ∈ live) :
    ∃ ia' twin', internalFree root ptr ia = .ok () ia' ∧
      internalFree root ptr twin = .ok () twin' ∧ Twins root ia' twin' (live.erase ptr) := by
  rcases List.mem_map.mp (twins.live.mem_iff.mp member) with ⟨part, inBlocks, rfl⟩
  rcases part with ⟨ptr, k⟩
  rcases IntAlloc.mem_blocks inBlocks with ⟨offset, rfl, inTree⟩
  have inTwin : (offset, k) ∈ Buddy.blocks 0 18 twin.tree := by
    rw [twins.tree]
    exact inTree
  rcases internalFree_refines twins.valid inTree with ⟨ia', call, tree, valid⟩
  rcases internalFree_refines twins.valid' inTwin with ⟨twin', call', tree', valid'⟩
  refine ⟨ia', twin', call, call', valid, valid', ?_, ?_⟩
  · rw [tree', tree, twins.tree]
  · have blocks : (ia.blocks root).Perm
        ((intAllocMemory root + 32 * offset, k) :: ia'.blocks root) :=
      IntAlloc.blocks_release inTree tree
    have shifted := ((List.perm_cons_erase member).symm.trans twins.live).trans
      (blocks.map Prod.fst)
    exact (List.perm_cons _).mp shifted

theorem iaCalls_alloc {size : Nat} {ptr : Option Nat} {ia₁ ia₂ : IntAlloc} {calls : List IaCall}
    {results : List (Option Nat × Nat)} (call : internalAlloc root size ia = .ok ptr ia₁)
    (rest : iaCalls root calls ia₁ = .ok results ia₂) :
    iaCalls root (.alloc size :: calls) ia = .ok ((ptr, ia₁.freeMem) :: results) ia₂ := by
  unfold iaCalls
  rw [bind_ok call, bind_apply, get_apply]
  exact bind_ok rest

theorem iaCalls_free {ptr : Nat} {ia₁ ia₂ : IntAlloc} {calls : List IaCall}
    {results : List (Option Nat × Nat)} (call : internalFree root ptr ia = .ok () ia₁)
    (rest : iaCalls root calls ia₁ = .ok results ia₂) :
    iaCalls root (.free ptr :: calls) ia = .ok ((none, ia₁.freeMem) :: results) ia₂ := by
  unfold iaCalls
  rw [bind_ok call, bind_apply, get_apply]
  exact bind_ok rest

/-- Both return from every sequence, with the same results. -/
theorem Twins.calls (space : root + intAllocSizeof < 2 ^ 64) (calls : List IaCall) :
    ∀ (ia twin : IntAlloc) (live : List Nat), Twins root ia twin live →
      Admissible root calls ia live → ∃ results ia' twin',
        iaCalls root calls ia = .ok results ia' ∧ iaCalls root calls twin = .ok results twin' := by
  induction calls with
  | nil =>
      intro ia twin live _ _
      exact ⟨[], ia, twin, rfl, rfl⟩
  | cons call calls ih =>
      intro ia twin live twins admissible
      cases call with
      | alloc size =>
          rcases admissible with ⟨positive, small, later⟩
          rcases twins.alloc space positive small with ⟨ptr, ia', twin', one, two, twins'⟩
          rcases ih ia' twin' _ twins' (later ptr ia' one) with ⟨results, ia₂, twin₂, rest, rest'⟩
          refine ⟨(ptr, ia'.freeMem) :: results, ia₂, twin₂, iaCalls_alloc one rest, ?_⟩
          rw [← twins'.freeMem]
          exact iaCalls_alloc two rest'
      | free ptr =>
          rcases admissible with ⟨member, later⟩
          rcases twins.free member with ⟨ia', twin', one, two, twins'⟩
          rcases ih ia' twin' _ twins' (later ia' one) with ⟨results, ia₂, twin₂, rest, rest'⟩
          refine ⟨(none, ia'.freeMem) :: results, ia₂, twin₂, iaCalls_free one rest, ?_⟩
          rw [← twins'.freeMem]
          exact iaCalls_free two rest'

/-- Whatever two allocators at one address held before `internal_allocator_init`, every
sequence of calls returns from both, with the same pointers and the same `free_mem` at each
step. -/
theorem internalAllocatorInit_twins (space : root + intAllocSizeof < 2 ^ 64)
    (before before' : IntAlloc) (calls : List IaCall)
    (admissible : Admissible root calls (internalAllocatorInit before) []) :
    ∃ results ia twin, iaCalls root calls (internalAllocatorInit before) = .ok results ia ∧
      iaCalls root calls (internalAllocatorInit before') = .ok results twin := by
  have one := internalAllocatorInit_valid before
  have two := internalAllocatorInit_valid before'
  have twins : Twins root (internalAllocatorInit before) (internalAllocatorInit before') [] := by
    refine ⟨one.2, two.2, two.1.trans one.1.symm, ?_⟩
    unfold IntAlloc.blocks
    rw [one.1, Buddy.blocks_free]
    exact List.Perm.refl _
  exact Twins.calls space calls _ _ [] twins admissible

/-- One call on allocators whose trees held zeros and ones. -/
theorem internalAllocatorInit_twins_once : ∃ results ia twin,
    iaCalls 4096 [.alloc 100] (internalAllocatorInit ⟨0, fun _ => 0#8⟩) = .ok results ia ∧
      iaCalls 4096 [.alloc 100] (internalAllocatorInit ⟨7, fun _ => 255#8⟩) = .ok results twin :=
  internalAllocatorInit_twins (by decide) _ _ _
    ⟨by decide, by decide, fun _ _ _ => trivial⟩

end Twins

end Sealloc
