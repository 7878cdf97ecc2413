import Sealloc.Random
import Sealloc.World.Mapping

/-! Which part of the address space the arena probes for chunks and which for other mappings. -/

namespace Sealloc

open Library

/-- Chunks are probed for below the program break, metadata and huge mappings above it. -/
structure AddressLayout (arena : Arena) : Prop where
  brk : mask44Bits < arena.brk
  chunkPage : arena.chunkAllocPtr % pageSize = 0
  chunkSome : arena.chunkAllocPtr ≠ 0
  chunkBelow : arena.chunkAllocPtr < arena.brk
  internalPage : arena.internalAllocPtr % pageSize = 0
  internalAbove : arena.brk ≤ arena.internalAllocPtr
  hugePage : arena.hugeAllocPtr % pageSize = 0
  hugeAbove : arena.brk ≤ arena.hugeAllocPtr

/-- A call of one of the three reset functions. -/
inductive Reset where
  | chunk
  | internal
  | huge
  deriving DecidableEq, Repr

def Reset.run (env : Env) : Reset → Prog World Unit
  | .chunk => resetChunkPtrStart env
  | .internal => resetIaPtrStart env
  | .huge => resetHugeAllocPtrStart env

def runResets (env : Env) : List Reset → Prog World Unit
  | [] => return ()
  | reset :: rest => do
      reset.run env
      runResets env rest

/-- The layout holds after `arena_init` and after each of the resets that follow. -/
def AlwaysLaidOut (env : Env) (brk : Nat) (resets : List Reset) (w : World) : Prop :=
  ∀ before, before <+: resets → ∃ w',
    (arenaInit env brk >>= fun _ => runResets env before) w = .ok () w' ∧ AddressLayout w'.arena

section Steps

variable {env : Env} {w : World} {brk : Nat}

/-- The program break that `reset_chunk_ptr_start` leaves. -/
def nextBrk (env : Env) (draws brk : Nat) : Nat :=
  if brk ≤ mask44Bits then alignupPage (u64 (env.rand64 draws) &&& mask45Bits) else brk

/-- The first step of `reset_chunk_ptr_start`, with the page that it has drawn. -/
theorem setPage_run (w : World) (page : Nat) :
    ∃ w', setProbe .chunkAlloc page w = .ok () w' ∧ w'.rand32Draws = w.rand32Draws ∧
      w'.rand64Draws = w.rand64Draws ∧ w'.arena.chunkAllocPtr = page ∧
      w'.arena.brk = w.arena.brk ∧ w'.arena.internalAllocPtr = w.arena.internalAllocPtr ∧
      w'.arena.hugeAllocPtr = w.arena.hugeAllocPtr :=
  ⟨_, rfl, rfl, rfl, rfl, rfl, rfl, rfl⟩

theorem setBrk_run (w : World) (brk : Nat) :
    ∃ w', Prog.modify (fun w : World => w.setArena { w.arena with brk := brk }) w = .ok () w' ∧
      w'.rand32Draws = w.rand32Draws ∧ w'.arena.chunkAllocPtr = w.arena.chunkAllocPtr ∧
      w'.arena.brk = brk ∧ w'.arena.internalAllocPtr = w.arena.internalAllocPtr ∧
      w'.arena.hugeAllocPtr = w.arena.hugeAllocPtr :=
  ⟨_, rfl, rfl, rfl, rfl, rfl, rfl⟩

theorem resetChunkPtrStart_run (env : Env) (w : World) :
    ∃ w', resetChunkPtrStart env w = .ok () w' ∧ w'.rand32Draws = w.rand32Draws + 1 ∧
      w'.arena.chunkAllocPtr = alignupPage32 (u32 (env.rand32 w.rand32Draws)) ∧
      w'.arena.brk = nextBrk env w.rand64Draws w.arena.brk ∧
      w'.arena.internalAllocPtr = w.arena.internalAllocPtr ∧
      w'.arena.hugeAllocPtr = w.arena.hugeAllocPtr := by
  have drawn : splitmix32 env w = .ok (u32 (env.rand32 w.rand32Draws)) (w.draw32 1) := rfl
  rcases setPage_run (w.draw32 1) (alignupPage32 (u32 (env.rand32 w.rand32Draws))) with
    ⟨w₁, paged, draws, words, page, brk, internal, huge⟩
  have start : w₁.arena.brk = w.arena.brk := brk
  have word : splitmix64 env w₁ = .ok (u64 (env.rand64 w.rand64Draws)) w₁.draw64 := by
    rw [splitmix64, words]
    rfl
  rw [resetChunkPtrStart, bind_ok drawn, bind_ok paged, bind_ok (get_apply _), start, nextBrk]
  by_cases low : w.arena.brk ≤ mask44Bits
  · rw [if_pos low, if_pos low, bind_ok word]
    rcases setBrk_run w₁.draw64 (alignupPage (u64 (env.rand64 w.rand64Draws) &&& mask45Bits)) with
      ⟨w₂, raised, draws₂, page₂, brk₂, internal₂, huge₂⟩
    exact ⟨w₂, raised, draws₂.trans draws, page₂.trans page, brk₂, internal₂.trans internal,
      huge₂.trans huge⟩
  · rw [if_neg low, if_neg low]
    exact ⟨w₁, pure_apply _ _, draws, page, start, internal, huge⟩

/-- The page that `reset_ia_ptr_start` and `reset_huge_alloc_ptr_start` choose. -/
theorem resetPtrStart_run (env : Env) (which : ProbePtr) (below : w.arena.brk < maxUserspaceAddr64) :
    ∃ w' page, resetPtrStart env which w = .ok () w' ∧ w'.rand32Draws = w.rand32Draws ∧
      w'.arena = w.arena.setProbe which page ∧ page % pageSize = 0 ∧ w.arena.brk ≤ page := by
  have range : sub64 maxUserspaceAddr64 w.arena.brk = maxUserspaceAddr64 - w.arena.brk := by
    unfold maxUserspaceAddr64 at below ⊢
    exact sub64_eq (by omega) (by norm_num)
  have some : maxUserspaceAddr64 - w.arena.brk ≠ 0 := by omega
  unfold resetPtrStart setProbe
  simp only [bind_apply, splitmix64, get_apply]
  have same : w.draw64.arena.brk = w.arena.brk := rfl
  rw [same, range, if_neg some]
  have less : u64 (env.rand64 w.rand64Draws) % (maxUserspaceAddr64 - w.arena.brk) <
      maxUserspaceAddr64 - w.arena.brk := Nat.mod_lt _ (Nat.pos_of_ne_zero some)
  generalize u64 (env.rand64 w.rand64Draws) % (maxUserspaceAddr64 - w.arena.brk) = rand at less
  unfold maxUserspaceAddr64 at below less
  have sum : u64 (w.arena.brk + rand) = w.arena.brk + rand := u64_eq (by omega)
  have spec := @alignupPage_spec (w.arena.brk + rand) (by unfold sizeMax; omega)
  rw [sum]
  refine ⟨_, _, rfl, rfl, rfl, spec.2.2, ?_⟩
  omega

theorem nextBrk_lt (draws : Nat) (below : brk < maxUserspaceAddr64) :
    nextBrk env draws brk < maxUserspaceAddr64 := by
  unfold nextBrk
  split
  · exact and_mask45_lt _
  · exact below

theorem alignupPage32_page (rand : Nat) :
    alignupPage32 rand % pageSize = 0 ∧ alignupPage32 rand < 2 ^ 32 := by
  unfold alignupPage32 clearLow u32 pageSize
  omega

/-- A reset in a laid out arena keeps the layout, if the page for chunks is not the first one. -/
theorem Reset.run_layout (layout : AddressLayout w.arena) (below : w.arena.brk < maxUserspaceAddr64)
    (reset : Reset) : ∃ w', reset.run env w = .ok () w' ∧
      w'.arena.brk < maxUserspaceAddr64 ∧
      w'.rand32Draws = w.rand32Draws + (if reset = .chunk then 1 else 0) ∧
      (AddressLayout w'.arena ↔
        (reset = .chunk → alignupPage32 (u32 (env.rand32 w.rand32Draws)) ≠ 0)) := by
  cases reset with
  | chunk =>
      rcases resetChunkPtrStart_run env w with ⟨w', run, draws, chunk, brk, internal, huge⟩
      have page := alignupPage32_page (u32 (env.rand32 w.rand32Draws))
      have keep : nextBrk env w.rand64Draws w.arena.brk = w.arena.brk :=
        if_neg (Nat.not_le.mpr layout.brk)
      rw [keep] at brk
      refine ⟨w', run, by rw [brk]; exact below, draws, ?_⟩
      constructor
      · intro laid _
        rw [← chunk]
        exact laid.chunkSome
      · intro some
        have large := layout.brk
        refine ⟨?_, ?_, ?_, ?_, ?_, ?_, ?_, ?_⟩
        · rw [brk]
          exact large
        · rw [chunk]
          exact page.1
        · rw [chunk]
          exact some rfl
        · rw [chunk, brk]
          unfold mask44Bits at large
          exact lt_of_lt_of_le page.2 (by omega)
        · rw [internal]
          exact layout.internalPage
        · rw [internal, brk]
          exact layout.internalAbove
        · rw [huge]
          exact layout.hugePage
        · rw [huge, brk]
          exact layout.hugeAbove
  | internal =>
      rcases resetPtrStart_run env .internalAlloc below with ⟨w', page, run, draws, arena, aligned, above⟩
      refine ⟨w', run, by rw [arena]; exact below, draws, ?_⟩
      rw [arena]
      refine iff_of_true ?_ Reset.noConfusion
      exact { layout with internalPage := aligned, internalAbove := above }
  | huge =>
      rcases resetPtrStart_run env .hugeAlloc below with ⟨w', page, run, draws, arena, aligned, above⟩
      refine ⟨w', run, by rw [arena]; exact below, draws, ?_⟩
      rw [arena]
      refine iff_of_true ?_ Reset.noConfusion
      exact { layout with hugePage := aligned, hugeAbove := above }

/-- What `arena_init` leaves is laid out if the program break, or the one it draws instead, is
large, and the page for chunks is not the first one. -/
theorem arenaInit_layout (w : World) (below : brk < maxUserspaceAddr64) :
    ∃ w', arenaInit env brk w = .ok () w' ∧ w'.arena.brk < maxUserspaceAddr64 ∧
      w'.rand32Draws = w.rand32Draws + 1 ∧
      (AddressLayout w'.arena ↔ mask44Bits < nextBrk env w.rand64Draws brk ∧
        alignupPage32 (u32 (env.rand32 w.rand32Draws)) ≠ 0) := by
  unfold arenaInit
  simp only [bind_apply, modify_apply]
  generalize start : w.setArena { w.arena with
    brk := brk
    internalAllocList := []
    chunkList := []
    hugeAllocList := [] } = w₀
  have brk₀ : w₀.arena.brk = brk := by
    rw [← start]
    rfl
  have draws₀ : w₀.rand32Draws = w.rand32Draws ∧ w₀.rand64Draws = w.rand64Draws := by
    rw [← start]
    exact ⟨rfl, rfl⟩
  rcases resetChunkPtrStart_run env w₀ with ⟨w₁, run₁, draws₁, chunk, brk₁, -, -⟩
  rw [brk₀, draws₀.2] at brk₁
  rw [draws₀.1] at chunk draws₁
  have below₁ : w₁.arena.brk < maxUserspaceAddr64 := by
    rw [brk₁]
    exact nextBrk_lt _ below
  rcases resetPtrStart_run env .internalAlloc below₁ with
    ⟨w₂, internal, run₂, draws₂, arena₂, internalPage, internalAbove⟩
  have below₂ : w₂.arena.brk < maxUserspaceAddr64 := by
    rw [arena₂]
    exact below₁
  rcases resetPtrStart_run env .hugeAlloc below₂ with
    ⟨w₃, huge, run₃, draws₃, arena₃, hugePage, hugeAbove⟩
  have run₂' : resetIaPtrStart env w₁ = .ok () w₂ := run₂
  have run₃' : resetHugeAllocPtrStart env w₂ = .ok () w₃ := run₃
  simp only [run₁, run₂', run₃']
  have page := alignupPage32_page (u32 (env.rand32 w.rand32Draws))
  rw [arena₂] at arena₃ hugeAbove
  refine ⟨_, rfl, ?_, ?_, ?_⟩
  · change w₃.arena.brk < maxUserspaceAddr64
    rw [arena₃]
    exact below₁
  · exact draws₃.trans (draws₂.trans draws₁)
  · rw [arena₃]
    rw [← brk₁, ← chunk]
    rw [← chunk] at page
    constructor
    · intro laid
      exact ⟨laid.brk, laid.chunkSome⟩
    · rintro ⟨large, some⟩
      have wide : 2 ^ 32 ≤ w₁.arena.brk := by
        unfold mask44Bits at large
        omega
      exact ⟨large, page.1, some, lt_of_lt_of_le page.2 wide, internalPage, internalAbove,
        hugePage, hugeAbove⟩

end Steps

section Runs

variable {env : Env} {w : World} {brk : Nat}

/-- The first `count` pages that `reset_chunk_ptr_start` rounds its draws to are not page 0. -/
def ChunkDraws (env : Env) (draws count : Nat) : Prop :=
  ∀ j < count, alignupPage32 (u32 (env.rand32 (draws + j))) ≠ 0

theorem chunkDraws_succ {draws count : Nat} : ChunkDraws env draws (count + 1) ↔
    alignupPage32 (u32 (env.rand32 draws)) ≠ 0 ∧ ChunkDraws env (draws + 1) count := by
  constructor
  · intro all
    refine ⟨all 0 (Nat.succ_pos count), ?_⟩
    intro j less
    have next := all (j + 1) (Nat.succ_lt_succ less)
    rw [← Nat.add_assoc, Nat.add_right_comm] at next
    exact next
  · rintro ⟨first, later⟩ j less
    cases j with
    | zero => exact first
    | succ j =>
        have next := later j (Nat.lt_of_succ_lt_succ less)
        rw [Nat.add_right_comm] at next
        exact next

/-- From a laid out arena on, the layout is a matter of the draws for chunks. -/
theorem runResets_layout (resets : List Reset) (layout : AddressLayout w.arena)
    (below : w.arena.brk < maxUserspaceAddr64) :
    (∀ before, before <+: resets → ∃ w', runResets env before w = .ok () w' ∧ AddressLayout w'.arena) ↔
      ChunkDraws env w.rand32Draws (resets.count .chunk) := by
  induction resets generalizing w with
  | nil =>
      refine iff_of_true ?_ ?_
      · intro before isPrefix
        rw [List.prefix_nil.mp isPrefix]
        exact ⟨w, rfl, layout⟩
      · intro j less
        exact absurd less (Nat.not_lt_zero j)
  | cons reset rest ih =>
      rcases @Reset.run_layout env w layout below reset with ⟨w₁, run, below₁, draws, keeps⟩
      have later : ∀ before, runResets env (reset :: before) w = runResets env before w₁ := by
        intro before
        simp only [runResets, bind_apply, run]
      have split : (∀ before, before <+: reset :: rest →
          ∃ w', runResets env before w = .ok () w' ∧ AddressLayout w'.arena) ↔
          ∀ before, before <+: rest →
            ∃ w', runResets env before w₁ = .ok () w' ∧ AddressLayout w'.arena := by
        constructor
        · intro all before isPrefix
          rw [← later before]
          exact all _ ((List.prefix_cons_inj reset).mpr isPrefix)
        · intro all before isPrefix
          cases before with
          | nil => exact ⟨w, rfl, layout⟩
          | cons first before =>
              rcases List.cons_prefix_cons.mp isPrefix with ⟨rfl, isPrefix'⟩
              rw [later before]
              exact all before isPrefix'
      have first : (∀ before, before <+: rest →
          ∃ w', runResets env before w₁ = .ok () w' ∧ AddressLayout w'.arena) → AddressLayout w₁.arena := by
        intro all
        rcases all [] List.nil_prefix with ⟨w', same, laid⟩
        injection same with _ world
        rw [world]
        exact laid
      rw [split]
      by_cases isChunk : reset = .chunk
      · subst isChunk
        rw [if_pos rfl] at draws
        rw [List.count_cons_self, chunkDraws_succ, ← draws]
        constructor
        · intro all
          have laid := first all
          exact ⟨keeps.mp laid rfl, (ih laid below₁).mp all⟩
        · rintro ⟨some, others⟩
          exact (ih (keeps.mpr fun _ => some) below₁).mpr others
      · rw [if_neg isChunk, Nat.add_zero] at draws
        rw [List.count_cons_of_ne (fun same => isChunk same), ← draws]
        exact ih (keeps.mpr fun same => absurd same isChunk) below₁

/-- The layout holds throughout exactly when the program break is large or the one drawn for it
is, and no draw for chunks is rounded to page 0. -/
theorem alwaysLaidOut_iff (below : brk < maxUserspaceAddr64) (resets : List Reset) :
    AlwaysLaidOut env brk resets w ↔ mask44Bits < nextBrk env w.rand64Draws brk ∧
      ChunkDraws env w.rand32Draws (resets.count .chunk + 1) := by
  rcases @arenaInit_layout env brk w below with ⟨w₁, run, below₁, draws, keeps⟩
  have later : ∀ before, (arenaInit env brk >>= fun _ => runResets env before) w =
      runResets env before w₁ := by
    intro before
    rw [bind_apply, run]
  unfold AlwaysLaidOut
  simp only [later]
  rw [chunkDraws_succ, ← draws]
  constructor
  · intro all
    have laid : AddressLayout w₁.arena := by
      rcases all [] List.nil_prefix with ⟨w', same, laid⟩
      injection same with _ world
      rw [world]
      exact laid
    have both := keeps.mp laid
    exact ⟨both.1, both.2, (runResets_layout resets laid below₁).mp all⟩
  · rintro ⟨large, some, others⟩
    exact (runResets_layout resets (keeps.mpr ⟨large, some⟩) below₁).mpr others

/-- For every seed and program break, and any resets after `arena_init`, which seeds the
generators. -/
theorem seeded_layout (below : brk < maxUserspaceAddr64) (seed : Nat) (resets : List Reset)
    (seeded32 : w.rand32Draws = 0) (seeded64 : w.rand64Draws = 0) :
    AlwaysLaidOut (env.seeded seed) brk resets w ↔
      (mask44Bits < brk ∨
        mask44Bits < alignupPage (splitmix64Word (splitmix64Advance seed) &&& mask45Bits)) ∧
      ∀ j ≤ resets.count .chunk,
        alignupPage32 (splitmix32Word (splitmix32Advance^[j + 1] seed)) ≠ 0 := by
  have first : u64 ((env.seeded seed).rand64 0) = splitmix64Word (splitmix64Advance seed) := by
    rw [seeded_rand64, Nat.zero_add, Function.iterate_one]
  rw [alwaysLaidOut_iff below, seeded32, seeded64]
  unfold nextBrk ChunkDraws
  simp only [seeded_rand32, first, Nat.zero_add, Nat.lt_succ_iff]
  by_cases low : brk ≤ mask44Bits
  · rw [if_pos low, or_iff_right (not_lt.mpr low)]
  · rw [if_neg low, or_iff_left_of_imp fun _ => not_le.mp low]

/-- With the seed 2 a program break at 6 MiB is replaced by a large one. -/
theorem seeded_layout_two : AlwaysLaidOut ((Env.willing fun _ => 0).seeded 2) 0x602000
    [.chunk, .huge, .chunk, .internal] World.blank := by
  apply (seeded_layout (by decide) 2 _ rfl rfl).mpr
  constructor
  · exact Or.inr (by decide +kernel)
  · decide +kernel

/-- With the seed 0 the one drawn instead is not large either. -/
theorem seeded_layout_zero : ¬ ∀ (env : Env) (w : World) (brk seed : Nat) (resets : List Reset),
    brk < maxUserspaceAddr64 → seed < 2 ^ 32 → w.rand32Draws = 0 → w.rand64Draws = 0 →
    AlwaysLaidOut (env.seeded seed) brk resets w := by
  intro all
  have laid := all (Env.willing fun _ => 0) World.blank 0x602000 0 [] (by decide) (by decide) rfl rfl
  have large := ((alwaysLaidOut_iff (by decide) []).mp laid).1
  have small : ¬ mask44Bits < nextBrk ((Env.willing fun _ => 0).seeded 0) 0 0x602000 := by
    decide +kernel
  exact small large

end Runs

end Sealloc
