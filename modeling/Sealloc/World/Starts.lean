import Sealloc.Random.Period
import Sealloc.World.Layout

/-! Where the arena starts to probe for chunks, over all seeds. -/

namespace Sealloc

open Library

/-- Every word is the draw of one seed. -/
theorem seeds_mix (env : Env) (start n : Nat) :
    Mixes (2 ^ 32) (fun seed => drawn32 env seed start n) := by
  have counter : Mixes (2 ^ 32) (fun seed => ((start + n + 1) * 0x9e3779b9 + seed * 1) % 2 ^ 32) :=
    mixes_counter (by decide) _
  have same : (fun seed => drawn32 env seed start n) = fun seed =>
      splitmix32Word (((start + n + 1) * 0x9e3779b9 + seed * 1) % 2 ^ 32) := by
    funext seed
    unfold drawn32
    rw [seeded_rand32, Nat.mul_one, Nat.add_comm _ seed]
    exact congrArg splitmix32Word (counter_iterate (2 ^ 32) 0x9e3779b9 seed (start + n))
  rw [same]
  exact counter.comp splitmix32Word_mixes

theorem count_between {low len size : Nat} (inside : low + len ≤ size) :
    Nat.count (fun x => low ≤ x ∧ x < low + len) size = len := by
  rw [Nat.count_eq_card_filter_range]
  have interval : (Finset.range size).filter (fun x => low ≤ x ∧ x < low + len) =
      Finset.Ico low (low + len) := by
    ext x
    rw [Finset.mem_filter, Finset.mem_range, Finset.mem_Ico]
    omega
  rw [interval, Nat.card_Ico, Nat.add_sub_cancel_left]

/-- As many words are rounded up to one page as to another; the last ones wrap to page 0. -/
theorem alignupPage32_count {page : Nat} (aligned : page % pageSize = 0) (small : page < 2 ^ 32) :
    Nat.count (fun x => alignupPage32 x = page) (2 ^ 32) = pageSize := by
  have turns : Mixes (2 ^ 32) (fun x => (pageSize - 1 + x * 1) % 2 ^ 32) :=
    mixes_counter (by decide) _
  unfold pageSize at aligned turns ⊢
  have rounded : ∀ x, alignupPage32 x = page ↔
      page ≤ (4096 - 1 + x * 1) % 2 ^ 32 ∧ (4096 - 1 + x * 1) % 2 ^ 32 < page + 4096 := by
    intro x
    unfold alignupPage32 clearLow u32 pageSize
    omega
  simp only [rounded]
  rw [turns.count_eq fun y => page ≤ y ∧ y < page + 4096]
  exact count_between (by omega)

/-- `chunk_alloc_ptr` after `arena_init`. -/
def chunkStart (env : Env) (brk : Nat) (w : World) : Option Nat :=
  match arenaInit env brk w with
  | .ok _ w' => some w'.arena.chunkAllocPtr
  | _ => none

theorem chunkStart_eq {env : Env} {brk : Nat} (w : World) (below : brk < maxUserspaceAddr64) :
    chunkStart env brk w = some (alignupPage32 (u32 (env.rand32 w.rand32Draws))) := by
  unfold chunkStart arenaInit
  simp only [bind_apply, modify_apply]
  generalize start : w.setArena { w.arena with
    brk := brk
    internalAllocList := []
    chunkList := []
    hugeAllocList := [] } = w₀
  have draws : w₀.rand32Draws = w.rand32Draws := by
    rw [← start]
    rfl
  have brk₀ : w₀.arena.brk = brk := by
    rw [← start]
    rfl
  rcases resetChunkPtrStart_run env w₀ with ⟨w₁, run₁, -, chunk, brk₁, -, -⟩
  have below₁ : w₁.arena.brk < maxUserspaceAddr64 := by
    rw [brk₁, brk₀]
    exact nextBrk_lt _ below
  rcases resetPtrStart_run env .internalAlloc below₁ with ⟨w₂, internal, run₂, -, arena₂, -, -⟩
  have below₂ : w₂.arena.brk < maxUserspaceAddr64 := by
    rw [arena₂]
    exact below₁
  rcases resetPtrStart_run env .hugeAlloc below₂ with ⟨w₃, huge, run₃, -, arena₃, -, -⟩
  have run₂' : resetIaPtrStart env w₁ = .ok () w₂ := run₂
  have run₃' : resetHugeAllocPtrStart env w₂ = .ok () w₃ := run₃
  simp only [run₁, run₂', run₃']
  rw [← draws, ← chunk]
  change some w₃.arena.chunkAllocPtr = some w₁.arena.chunkAllocPtr
  rw [arena₃, arena₂]
  rfl

/-- Each of the pages below 4 GiB is where 4096 of the seeds start to probe for chunks; page 0 is
one of them. -/
theorem chunk_starts_even (env : Env) (w : World) {brk page : Nat}
    (below : brk < maxUserspaceAddr64) (aligned : page % pageSize = 0) (small : page < 2 ^ 32) :
    Nat.count (fun seed => chunkStart (env.seeded seed) brk w = some page) (2 ^ 32) = 4096 := by
  have drawn : ∀ seed, chunkStart (env.seeded seed) brk w = some page ↔
      alignupPage32 (drawn32 env seed w.rand32Draws 0) = page := by
    intro seed
    rw [chunkStart_eq w below]
    exact Option.some_inj
  simp only [drawn]
  rw [(seeds_mix env w.rand32Draws 0).count_eq fun x => alignupPage32 x = page]
  exact alignupPage32_count aligned small

/-- The seeds that start at page 0. -/
theorem chunk_starts_zero : 0x602000 < maxUserspaceAddr64 ∧ 0 % pageSize = 0 ∧ 0 < 2 ^ 32 ∧
    Nat.count (fun seed => chunkStart ((Env.willing fun _ => 0).seeded seed) 0x602000
      World.blank = some 0) (2 ^ 32) = 4096 :=
  ⟨by decide, by decide, by decide,
    chunk_starts_even _ _ (by decide) (by decide) (by decide)⟩

end Sealloc
