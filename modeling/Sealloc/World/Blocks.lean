import Sealloc.World.Metadata
import Sealloc.InternalAllocator.FirstFit

/-! Runs of the metadata allocator over all of its mappings. -/

namespace Sealloc

open Library

/-- The arena and the live metadata blocks after any calls of `arena_internal_alloc` and
`arena_internal_free`; between them, anything may happen that leaves the mappings alone. -/
inductive MetaRun : World → List IaBlock → Prop
  | init {w : World} (none : w.arena.internalAllocList = [])
      (below : w.arena.brk < maxUserspaceAddr64) : MetaRun w []
  | alloc {w w' : World} {live : List IaBlock} {env : Env} {fuel size ptr : Nat}
      (before : MetaRun w live) (positive : 1 ≤ size) (small : size ≤ 4194304)
      (call : arenaInternalAlloc env fuel size w = .ok (some ptr) w') :
      MetaRun w' (⟨ptr, size⟩ :: live)
  | free {w w' : World} {live : List IaBlock} {block : IaBlock} (before : MetaRun w live)
      (member : block ∈ live) (call : arenaInternalFree block.ptr w = .ok () w') :
      MetaRun w' (live.erase block)
  | other {w w' : World} {live : List IaBlock} (before : MetaRun w live)
      (below : w'.arena.brk < maxUserspaceAddr64)
      (mappings : w'.arena.internalAllocList = w.arena.internalAllocList)
      (contents : w'.intAllocs = w.intAllocs)
      (mapped : ∀ x, Internal w.arena.internalAllocList x → w.Mapped x → w'.Mapped x) :
      MetaRun w' live

/-- The blocks in use of all mappings, by address and height. -/
def allBlocks (roots : List Nat) (ias : Nat → IntAlloc) : List (Nat × Nat) :=
  roots.flatMap fun root => (ias root).blocks root

/-- The live blocks are the blocks of the trees. -/
def LiveMeta (w : World) (live : List IaBlock) : Prop :=
  (live.map fun block => (block.ptr, blockHeight block.request)).Perm
    (allBlocks w.arena.internalAllocList w.intAllocs)

section Lists

variable {ias ias' : Nat → IntAlloc} {roots : List Nat} {k : Nat}

theorem allBlocks_congr (same : treesOf ias' roots = treesOf ias roots) :
    allBlocks roots ias' = allBlocks roots ias := by
  induction roots with
  | nil => rfl
  | cons root rest ih =>
      unfold treesOf at same
      rw [List.map_cons, List.map_cons, List.cons.injEq] at same
      have here : (ias' root).blocks root = (ias root).blocks root := by
        unfold IntAlloc.blocks
        rw [same.1]
      unfold allBlocks at ih ⊢
      rw [List.flatMap_cons, List.flatMap_cons, here, ih same.2]

/-- The first fit adds one block. -/
theorem firstFit_blocks (fits : k ≤ 18)
    (taken : firstFit k (treesOf ias roots) = some (treesOf ias' roots)) :
    ∃ ptr, (allBlocks roots ias').Perm ((ptr, k) :: allBlocks roots ias) := by
  induction roots with
  | nil => simp [treesOf, firstFit] at taken
  | cons root rest ih =>
      have unfolded : ∀ i, allBlocks (root :: rest) i = (i root).blocks root ++ allBlocks rest i :=
        fun i => List.flatMap_cons
      have step : treesOf ias (root :: rest) = (ias root).tree :: treesOf ias rest := rfl
      have step' : treesOf ias' (root :: rest) = (ias' root).tree :: treesOf ias' rest := rfl
      rw [step, step', firstFit] at taken
      rw [unfolded ias, unfolded ias']
      cases found : Buddy.alloc k 18 (ias root).tree with
      | some result =>
          rcases result with ⟨offset, left⟩
          rw [found] at taken
          simp only [Option.some.injEq, List.cons.injEq] at taken
          have here : ((ias' root).blocks root).Perm _ :=
            IntAlloc.blocks_alloc fits found taken.1.symm
          rw [allBlocks_congr taken.2.symm]
          exact ⟨_, here.append_right _⟩
      | none =>
          rw [found] at taken
          rcases Option.map_eq_some_iff.mp taken with ⟨trees, fit, same⟩
          rw [List.cons.injEq] at same
          rw [same.2] at fit
          rcases ih fit with ⟨ptr, added⟩
          have here : (ias' root).blocks root = (ias root).blocks root := by
            unfold IntAlloc.blocks
            rw [same.1]
          rw [here]
          exact ⟨ptr, (added.append_left _).trans List.perm_middle⟩

/-- A change of one mapping. -/
theorem allBlocks_update (ias : Nat → IntAlloc) {root : Nat} (ia : IntAlloc) (nodup : roots.Nodup)
    (member : root ∈ roots) : ∃ rest, (allBlocks roots ias).Perm ((ias root).blocks root ++ rest) ∧
      (allBlocks roots (Function.update ias root ia)).Perm (ia.blocks root ++ rest) := by
  have split := List.perm_cons_erase member
  refine ⟨allBlocks (roots.erase root) ias, split.flatMap_right _, ?_⟩
  have others : allBlocks (roots.erase root) (Function.update ias root ia) =
      allBlocks (roots.erase root) ias :=
    allBlocks_congr (treesOf_update nodup.not_mem_erase)
  have here : (Function.update ias root ia) root = ia := Function.update_self _ _ _
  rw [← others]
  have unfolded := split.flatMap_right fun r => ((Function.update ias root ia) r).blocks r
  rw [List.flatMap_cons, here] at unfolded
  exact unfolded

end Lists

section Steps

variable {w w' : World} {live : List IaBlock} {size ptr : Nat}

theorem MetaTaken.blocks (taken : Taken w size ptr w') (change : MetaTaken w size w')
    (small : size ≤ 4194304) :
    (allBlocks w'.arena.internalAllocList w'.intAllocs).Perm
      ((ptr, blockHeight size) :: allBlocks w.arena.internalAllocList w.intAllocs) := by
  have fits : blockHeight size ≤ 18 := blockHeight_le (by omega)
  have added : ∃ ptr', (allBlocks w'.arena.internalAllocList w'.intAllocs).Perm
      ((ptr', blockHeight size) :: allBlocks w.arena.internalAllocList w.intAllocs) := by
    rcases change with ⟨list, fit⟩ | ⟨-, map, list, others, fit⟩
    · rw [list] at fit ⊢
      exact firstFit_blocks fits fit
    · have fresh := internalAllocatorInit_valid ⟨0, fun _ => 0#8⟩
      have one : treesOf (fun _ => internalAllocatorInit ⟨0, fun _ => 0#8⟩) [map] = [.free] := by
        unfold treesOf
        rw [List.map_singleton, fresh.1]
      have single : firstFit (blockHeight size)
          (treesOf (fun _ => internalAllocatorInit ⟨0, fun _ => 0#8⟩) [map]) =
            some (treesOf w'.intAllocs [map]) := by
        rw [one, fit]
        rfl
      rcases firstFit_blocks fits single with ⟨ptr', here⟩
      have empty : allBlocks [map] (fun _ => internalAllocatorInit ⟨0, fun _ => 0#8⟩) = [] := by
        unfold allBlocks IntAlloc.blocks
        rw [List.flatMap_singleton, fresh.1]
        rfl
      have old : allBlocks w.arena.internalAllocList w'.intAllocs =
          allBlocks w.arena.internalAllocList w.intAllocs := by
        apply allBlocks_congr
        apply List.map_congr_left
        intro root member
        rw [others root member]
      rw [empty] at here
      have both : allBlocks (map :: w.arena.internalAllocList) w'.intAllocs =
          allBlocks [map] w'.intAllocs ++ allBlocks w.arena.internalAllocList w'.intAllocs := by
        unfold allBlocks
        rw [List.flatMap_cons, List.flatMap_singleton]
      rw [list, both, old]
      exact ⟨ptr', here.append_right _⟩
  rcases added with ⟨ptr', perm⟩
  rcases taken.placed with ⟨root, member, k, block, -⟩
  have listed : (ptr, k) ∈ allBlocks w'.arena.internalAllocList w'.intAllocs :=
    List.mem_flatMap.mpr ⟨root, member, block⟩
  rcases List.mem_cons.mp (perm.mem_iff.mp listed) with same | before
  · rw [Prod.mk.injEq] at same
    rw [same.1]
    exact perm
  · rcases List.mem_flatMap.mp before with ⟨root', member', block'⟩
    exact absurd ⟨root', member', k, block', Nat.le_refl _⟩ (taken.fresh _)

theorem LiveMeta.block (blocks : LiveMeta w live) {block : IaBlock} (member : block ∈ live) :
    ∃ root ∈ w.arena.internalAllocList,
      (block.ptr, blockHeight block.request) ∈ (w.intAllocs root).blocks root :=
  List.mem_flatMap.mp (blocks.mem_iff.mp (List.mem_map.mpr ⟨block, member, rfl⟩))

theorem LiveMeta.part (blocks : LiveMeta w live) {root : Nat}
    (member : root ∈ w.arena.internalAllocList) {part : Nat × Nat}
    (inTree : part ∈ Buddy.blocks 0 18 (w.intAllocs root).tree) :
    ∃ block ∈ live, block.ptr = intAllocMemory root + 32 * part.1 ∧
      blockHeight block.request = part.2 := by
  have inBlocks : (intAllocMemory root + 32 * part.1, part.2) ∈
      allBlocks w.arena.internalAllocList w.intAllocs :=
    List.mem_flatMap.mpr ⟨root, member, List.mem_map.mpr ⟨part, inTree, rfl⟩⟩
  rcases List.mem_map.mp (blocks.mem_iff.mpr inBlocks) with ⟨block, isLive, same⟩
  rw [Prod.mk.injEq] at same
  exact ⟨block, isLive, same.1, same.2⟩

theorem LiveMeta.free (ok : RootsOk w) (blocks : LiveMeta w live) {block : IaBlock}
    (member : block ∈ live) (call : arenaInternalFree block.ptr w = .ok () w') :
    MetaFrame (fun a => a = block.ptr) w w' ∧ w'.arena = w.arena ∧
      LiveMeta w' (live.erase block) := by
  rcases blocks.block member with ⟨root, listed, inBlocks⟩
  rcases arenaInternalFree_block ok listed inBlocks with ⟨ia, -, run, valid, removed⟩
  have same := run.symm.trans call
  rw [Outcome.ok.injEq] at same
  rw [← same.2]
  have frame : MetaFrame (fun a => a = block.ptr) w (w.setIntAlloc root ia) := by
    apply setIntAlloc_metaFrame listed valid
    intro other k different block'
    rcases List.mem_cons.mp (removed.mem_iff.mp block') with same | kept
    · exact absurd (Prod.mk.inj same).1 different
    · exact kept
  refine ⟨frame, rfl, ?_⟩
  rcases allBlocks_update w.intAllocs ia ok.nodup listed with
    ⟨rest, before, after⟩
  have shifted := (((List.perm_cons_erase member).map _).symm.trans blocks).trans
    (before.trans (removed.append_right rest))
  exact ((List.perm_cons _).mp shifted).trans after.symm

/-- What holds after every run. -/
theorem metaRun_invariant (run : MetaRun w live) :
    RootsOk w ∧ w.arena.brk < maxUserspaceAddr64 ∧ LiveMeta w live := by
  induction run with
  | @init w none below =>
      refine ⟨⟨?_, ?_, ?_, ?_, ?_, ?_⟩, below, ?_⟩
      · rw [none]
        exact List.nodup_nil
      · simp [none]
      · simp [none]
      · simp [none]
      · simp [none, Internal]
      · simp [none]
      · unfold LiveMeta
        rw [none]
        exact List.Perm.refl _
  | @alloc w w' live env fuel size ptr before positive small call ih =>
      rcases ih with ⟨ok, below, blocks⟩
      have post := wp_ok (@arenaInternalAlloc_taken ⟨fun _ => False, True⟩ w env size fuel ok below
        positive small fun _ => trivial) call
      rcases post with ⟨a, same, taken, change, -⟩
      injection same with same
      rw [same]
      refine ⟨taken.frame.ok ok, taken.frame.brk below, ?_⟩
      exact (blocks.cons _).trans (MetaTaken.blocks taken change small).symm
  | free before member call ih =>
      rcases ih with ⟨ok, below, blocks⟩
      rcases LiveMeta.free ok blocks member call with ⟨frame, arena, blocks'⟩
      exact ⟨frame.ok ok, frame.brk below, blocks'⟩
  | @other w w' live before below mappings contents mapped ih =>
      rcases ih with ⟨ok, -, blocks⟩
      refine ⟨⟨?_, ?_, ?_, ?_, ?_, ?_⟩, below, ?_⟩
      · rw [mappings]
        exact ok.nodup
      · rw [mappings, contents]
        exact ok.valid
      · rw [mappings]
        exact ok.bounds
      · rw [mappings]
        exact ok.unique
      · rw [mappings]
        exact fun x internal => mapped x internal (ok.mapped x internal)
      · rw [mappings]
        exact ok.aligned
      · unfold LiveMeta
        rw [mappings, contents]
        exact blocks

theorem LiveMeta.apart (ok : RootsOk w) (blocks : LiveMeta w live) :
    live.Pairwise IaBlock.Apart := by
  have parts : (allBlocks w.arena.internalAllocList w.intAllocs).Pairwise
      fun first second : Nat × Nat =>
        first.1 + 32 * 2 ^ first.2 ≤ second.1 ∨ second.1 + 32 * 2 ^ second.2 ≤ first.1 := by
    apply List.pairwise_flatMap.mpr
    refine ⟨fun root _ => IntAlloc.blocks_apart root _, ?_⟩
    apply ok.nodup.imp_of_mem
    intro root root' member member' different first inFirst second inSecond
    by_contra overlap
    have bounds := @IntAlloc.block_bounds root first.1 first.2 _ inFirst
    have bounds' := @IntAlloc.block_bounds root' second.1 second.2 _ inSecond
    have whole := intAllocMemory_end root
    have whole' := intAllocMemory_end root'
    have rounded := intAllocSizeof_le
    have header : ∀ r, r ≤ intAllocMemory r := fun r => Nat.le_add_right _ _
    have low := header root
    have low' := header root'
    have some := Nat.two_pow_pos first.2
    have some' := Nat.two_pow_pos second.2
    exact different (ok.unique root root' (max first.1 second.1) member member' (by omega)
      (by omega) (by omega) (by omega))
  have sorted := (List.Perm.pairwise_iff (fun apart => Or.symm apart) blocks).mpr parts
  rw [List.pairwise_map] at sorted
  exact sorted

/-- Where a live block lies, and how it is given back. -/
theorem LiveMeta.owner (ok : RootsOk w) (blocks : LiveMeta w live) {block : IaBlock}
    (member : block ∈ live) : block.ptr % 32 = 0 ∧
      ∃ root ∈ w.arena.internalAllocList,
        block.Within (intAllocMemory root) internalAllocChunkSizeBytes ∧
        (∀ root' ∈ w.arena.internalAllocList,
          block.Within (intAllocMemory root') internalAllocChunkSizeBytes → root' = root) ∧
        (∀ root' ∈ w.arena.internalAllocList,
          block.Outside root' (intAllocHeaderBytes + internalAllocBuddyTreeSizeBytes)) ∧
        ∃ ia, internalFree root block.ptr (w.intAllocs root) = .ok () ia ∧
          arenaInternalFree block.ptr w = .ok () (w.setIntAlloc root ia) := by
  rcases blocks.block member with ⟨root, listed, inBlocks⟩
  have bounds := IntAlloc.block_bounds inBlocks
  have filled := Nat.two_pow_pos (blockHeight block.request)
  have rounded := intAllocSizeof_le
  have ends := intAllocMemory_end
  have header : ∀ r, intAllocMemory r =
      r + (intAllocHeaderBytes + internalAllocBuddyTreeSizeBytes) := fun _ => rfl
  have inside : root ≤ block.ptr ∧ block.ptr < root + alignupPage intAllocSizeof := by
    have here := header root
    have last := ends root
    omega
  refine ⟨?_, root, listed, bounds, ?_, ?_, ?_⟩
  · rcases IntAlloc.mem_blocks inBlocks with ⟨offset, ptr, -⟩
    have aligned := ok.aligned root listed
    have memory : intAllocMemory root = root + 131104 := rfl
    unfold pageSize at aligned
    rw [ptr, memory]
    omega
  · intro root' listed' within
    unfold IaBlock.Within IaBlock.size at within
    have here := header root'
    have last := ends root'
    exact ok.unique root' root block.ptr listed' listed (by omega) (by omega) inside.1 inside.2
  · intro root' listed'
    unfold IaBlock.Outside IaBlock.size
    by_contra overlap
    have here := header root'
    have last := ends root'
    have header' := header root
    have last' := ends root
    have same := ok.unique root' root (max root' block.ptr) listed' listed (by omega) (by omega)
      (by omega) (by omega)
    rw [same] at overlap here
    omega
  · rcases arenaInternalFree_block ok listed inBlocks with ⟨ia, called, run, -⟩
    exact ⟨ia, called, run⟩

/-- A free block of a listed mapping makes the first fit succeed. -/
theorem LiveMeta.fit (ok : RootsOk w) (blocks : LiveMeta w live) (small : size ≤ 4194304)
    {root j : Nat} (listed : root ∈ w.arena.internalAllocList)
    (free : FreeBlock root live size j) : w.metaTake size ≠ none := by
  have fits : blockHeight size ≤ 18 := blockHeight_le (by omega)
  have place := free.place fun part => blocks.part listed
  have lowest := Buddy.alloc_lowest (ok.valid root listed).wellFormed fits (Nat.dvd_zero _)
  have room : Buddy.alloc (blockHeight size) 18 (w.intAllocs root).tree ≠ none := by
    intro none
    rw [none] at lowest
    exact lowest _ place
  unfold World.metaTake
  generalize w.arena.internalAllocList = roots at listed
  induction roots with
  | nil => exact absurd listed List.not_mem_nil
  | cons first rest ih =>
      unfold treesOf at ih ⊢
      rw [List.map_cons, firstFit]
      cases found : Buddy.alloc (blockHeight size) 18 (w.intAllocs first).tree with
      | some result => simp
      | none =>
          rcases List.mem_cons.mp listed with here | there
          · rw [here] at room
            exact absurd found room
          · simpa using ih there

/-- In every run, the live metadata blocks are disjoint and aligned, each lies in the memory of
exactly one mapping and in the bookkeeping of none, and is given back to that mapping. A call of
`arena_internal_alloc` returns a block unless the search for memory does not end, and makes a
new mapping only when no mapping has a free block of the rounded size. -/
theorem metaRun_blocks (run : MetaRun w live) :
    live.Pairwise IaBlock.Apart ∧
    (∀ block ∈ live, block.request ≤ block.size ∧ block.ptr % 32 = 0 ∧
      ∃ root ∈ w.arena.internalAllocList,
        block.Within (intAllocMemory root) internalAllocChunkSizeBytes ∧
        (∀ root' ∈ w.arena.internalAllocList,
          block.Within (intAllocMemory root') internalAllocChunkSizeBytes → root' = root) ∧
        (∀ root' ∈ w.arena.internalAllocList,
          block.Outside root' (intAllocHeaderBytes + internalAllocBuddyTreeSizeBytes)) ∧
        ∃ ia, internalFree root block.ptr (w.intAllocs root) = .ok () ia ∧
          arenaInternalFree block.ptr w = .ok () (w.setIntAlloc root ia)) ∧
    ∀ env fuel size, 1 ≤ size → size ≤ 4194304 →
      arenaInternalAlloc env fuel size w = .fuel ∨
        ∃ ptr w', arenaInternalAlloc env fuel size w = .ok (some ptr) w' ∧
          (w'.arena.internalAllocList = w.arena.internalAllocList ∨
            ((∃ map, w'.arena.internalAllocList = map :: w.arena.internalAllocList) ∧
              ∀ root ∈ w.arena.internalAllocList, ∀ j, ¬ FreeBlock root live size j)) := by
  rcases metaRun_invariant run with ⟨ok, below, blocks⟩
  refine ⟨blocks.apart ok, ?_, ?_⟩
  · intro block member
    exact ⟨(blockHeight_spec block.request).1, blocks.owner ok member⟩
  · intro env fuel size positive small
    have post := @arenaInternalAlloc_taken ⟨fun _ => False, True⟩ w env size fuel ok below
      positive small fun _ => trivial
    unfold wp at post
    cases call : arenaInternalAlloc env fuel size w with
    | fuel => exact Or.inl rfl
    | ok result w' =>
        rw [call] at post
        rcases post with ⟨ptr, found, -, change, -⟩
        refine Or.inr ⟨ptr, w', by rw [found], ?_⟩
        rcases change with ⟨list, -⟩ | ⟨full, map, list, -⟩
        · exact Or.inl list
        · refine Or.inr ⟨⟨map, list⟩, ?_⟩
          intro root listed j free
          exact blocks.fit ok small listed free full
    | abort w' =>
        rw [call] at post
        exact post.elim
    | exit w' =>
        rw [call] at post
        exact post.elim
    | crash w' =>
        rw [call] at post
        exact post.elim

/-- The first metadata block. -/
theorem metaRun_blocks_once : ∃ w block, MetaRun w [block] ∧ block.request = 32 ∧
    block.ptr % 32 = 0 ∧ ∃ root ∈ w.arena.internalAllocList,
      block.Within (intAllocMemory root) internalAllocChunkSizeBytes := by
  have taken : (arenaInternalAlloc (.willing fun _ => 0) 3 32
      (World.blank.setArena { World.blank.arena with internalAllocPtr := 2 ^ 44 })).returns
        (fun r _ => r.isSome) = true := by decide +kernel
  rcases Outcome.of_returns taken with ⟨r, w, call, isBlock⟩
  rcases Option.isSome_iff_exists.mp isBlock with ⟨ptr, rfl⟩
  have start : MetaRun (World.blank.setArena { World.blank.arena with internalAllocPtr := 2 ^ 44 })
      [] := .init rfl (by decide)
  have run : MetaRun w [⟨ptr, 32⟩] := .alloc start (by decide) (by decide) call
  have block := (metaRun_blocks run).2.1 ⟨ptr, 32⟩ (List.mem_singleton_self _)
  rcases block with ⟨-, aligned, root, listed, within, -⟩
  exact ⟨w, ⟨ptr, 32⟩, run, rfl, aligned, root, listed, within⟩

end Steps

end Sealloc
