import Sealloc.World.Session

/-! What a call does when no memory can be mapped: it ends where what is mapped already suffices,
and stays in the search for memory otherwise. -/

namespace Sealloc

open Library Chunk

/-- From some call on every `mmap` fails, and not because the range is taken. -/
def Env.Exhausted (env : Env) : Prop := ∃ calls, env.Fails calls

/-- With no memory to map, `sealloc_malloc` ends, and what was allocated still is. -/
def MallocEnds (s : Session) (size : Nat) : Prop :=
  ∀ env : Env, env.Exhausted → ∃ fuel r w, seallocMalloc env fuel size s.world = .ok r w ∧
    (s.after (.malloc size) r w).Inv

/-- With no memory to map, `sealloc_realloc` ends, and what was allocated still is, or the
process ends. -/
def ReallocEnds (s : Session) (ptr newSize : Nat) : Prop :=
  ∀ env : Env, env.Exhausted → ∃ fuel,
    (∃ r w, seallocRealloc env fuel (some ptr) newSize s.world = .ok r w ∧
      (s.after (.realloc (some ptr) newSize) r w).Inv) ∨
    ∃ w, seallocRealloc env fuel (some ptr) newSize s.world = .exit w

/-- A reallocation is served from what is mapped. -/
def World.ReallocFits (w : World) (ptr newSize : Nat) : Prop :=
  ∃ o, w.history.origin ptr = some o ∧ w.Fits (o.allocates newSize) ∧
    (newSize = 0 → (∃ huge, o = .huge huge) ∨ w.arena.bins 36 ≠ Bin.zero)

/-- An outside world that maps nothing any more. -/
def Env.broken : Env := { Env.willing (fun _ => 0) with mmap := fun _ _ _ => .failed .enomem }

section Exhausted

variable {s : Session} {size newSize : Nat} {region : UserRegion}

theorem broken_fails (calls : Nat) : Env.broken.Fails calls :=
  fun _ _ _ _ => ⟨.enomem, rfl, by decide⟩

theorem broken_exits (ends : Ends World) : Exits Env.broken ends := by
  intro w n errno impossible
  have none : Env.broken.munmap n = none := rfl
  rw [none] at impossible
  simp at impossible

/-- Where memory is needed, `sealloc_malloc` never ends. -/
theorem Session.Inv.malloc_stuck (inv : s.Inv) (word : size < 2 ^ 64)
    (tight : ¬ s.world.Fits (requestSize size)) (fuel : Nat) :
    seallocMalloc .broken fuel size s.world = .fuel := by
  rcases inv.inv with ⟨g, world⟩
  have post := @seallocMalloc_wp ⟨fun _ => False, True⟩ s.world g .broken fuel size world
    inv.stocked word fun _ => trivial
  unfold wp at post
  cases run : seallocMalloc .broken fuel size s.world with
  | fuel => rfl
  | ok r w =>
      rw [run] at post
      rcases post with ⟨q, -, -, working⟩
      exact absurd (working (broken_fails _)) tight
  | abort w =>
      rw [run] at post
      exact post.elim
  | exit w =>
      rw [run] at post
      exact post.elim
  | crash w =>
      rw [run] at post
      exact post.elim

theorem Session.Inv.malloc_ends (inv : s.Inv) (word : size < 2 ^ 64) :
    MallocEnds s size ↔ s.world.Fits (requestSize size) := by
  constructor
  · intro ends
    by_contra tight
    rcases ends .broken ⟨0, broken_fails 0⟩ with ⟨fuel, r, w, run, -⟩
    rw [inv.malloc_stuck word tight fuel] at run
    simp at run
  · intro fits env _
    rcases inv.inv with ⟨g, world⟩
    have post := @seallocMalloc_wp ⟨fun _ => False, False⟩ s.world g env 0 size world inv.stocked
      word fun tight => tight fits
    unfold wp at post
    cases run : seallocMalloc env 0 size s.world with
    | ok r w =>
        have legal : (Call.malloc size).Legal s := ⟨word, by simp [Call.old]⟩
        have answered : Answered s.world (.malloc size) r w := inv.answered legal run
        exact ⟨0, r, w, run, inv.after answered⟩
    | abort w =>
        rw [run] at post
        exact post.elim
    | exit w =>
        rw [run] at post
        exact post.elim
    | crash w =>
        rw [run] at post
        exact post.elim
    | fuel =>
        rw [run] at post
        exact post.elim

theorem Session.Inv.realloc_ends (inv : s.Inv) (member : region ∈ s.live)
    (word : newSize < 2 ^ 64) :
    ReallocEnds s region.ptr newSize ↔ s.world.ReallocFits region.ptr newSize := by
  rcases inv.inv with ⟨g, world⟩
  rcases inv.located region member with ⟨o, located⟩
  have origin := world.origin _ _ _ located
  constructor
  · intro ends
    rcases ends .broken ⟨0, broken_fails 0⟩ with ⟨fuel, outcome⟩
    by_cases sane : newSize = 0 → (∃ huge, o = .huge huge) ∨ s.world.arena.bins 36 ≠ Bin.zero
    · have post := @seallocRealloc_wp ⟨fun _ => False, True⟩ s.world g .broken region.ptr region.len fuel
        newSize o (broken_exits _) world inv.stocked located word sane fun _ => trivial
      unfold wp at post
      rcases outcome with ⟨r, w, run, -⟩ | ⟨w, run⟩
      · rw [run] at post
        rcases post with ⟨q, newLen, -, -, -, working⟩
        exact ⟨o, origin, working (broken_fails _), sane⟩
      · rw [run] at post
        exact post.elim
    · have cases' : newSize = 0 ∧ (¬ ∃ huge, o = .huge huge) ∧
          s.world.arena.bins 36 = Bin.zero := by
        simpa only [Classical.not_imp, not_or, not_not] using sane
      rcases cases' with ⟨rfl, notHuge, unused⟩
      cases o with
      | huge huge => exact absurd ⟨huge, rfl⟩ notHuge
      | regular chunk b run =>
          rw [seallocRealloc_zero world located unused] at outcome
          rcases outcome with ⟨r, w, impossible, -⟩ | ⟨w, impossible⟩
          · simp at impossible
          · simp at impossible
  · intro fits env _
    rcases fits with ⟨o', origin', fits, sane⟩
    have same : o' = o := Option.some.inj (origin'.symm.trans origin)
    rw [same] at fits sane
    have exits : Exits env ⟨fun _ => True, False⟩ := fun _ _ _ _ _ _ => trivial
    have post := @seallocRealloc_wp _ s.world g env region.ptr region.len 0 newSize o exits world
      inv.stocked located word sane fun tight => tight fits
    refine ⟨0, ?_⟩
    unfold wp at post
    cases run : seallocRealloc env 0 (some region.ptr) newSize s.world with
    | ok r w =>
        have legal : (Call.realloc (some region.ptr) newSize).Legal s :=
          ⟨word, fun p old => ⟨region, member, Option.some.inj old⟩⟩
        have answered : Answered s.world (.realloc (some region.ptr) newSize) r w :=
          inv.answered legal run
        exact Or.inl ⟨r, w, rfl, inv.after answered⟩
    | exit w => exact Or.inr ⟨w, rfl⟩
    | abort w =>
        rw [run] at post
        exact post.elim
    | crash w =>
        rw [run] at post
        exact post.elim
    | fuel =>
        rw [run] at post
        exact post.elim

/-- In every state that can be reached, `sealloc_malloc` and `sealloc_realloc` end without
memory to map exactly when what is mapped serves them. -/
theorem exhausted_ends (reach : Reach anyCalls s) :
    (∀ size < 2 ^ 64, MallocEnds s size ↔ s.world.Fits (requestSize size)) ∧
    ∀ region ∈ s.live, ∀ newSize < 2 ^ 64,
      (ReallocEnds s region.ptr newSize ↔ s.world.ReallocFits region.ptr newSize) :=
  ⟨fun _ word => reach.inv.malloc_ends word,
    fun _ member _ word => reach.inv.realloc_ends member word⟩

/-- After one small region, another one needs no memory. -/
theorem exhausted_ends_once : ∃ s, Reach anyCalls s ∧ MallocEnds s 16 := by
  have played : (Session.play (.willing fun n => (n + 1) * 2 ^ 44) 3 (2 ^ 45)
      [.malloc 16]).map (fun s => decide (s.world.Fits (requestSize 16))) = some true := by
    decide +kernel
  rcases Option.map_eq_some_iff.mp played with ⟨s, run, fits⟩
  have reach : Reach anyCalls s := play_reach (fun _ _ _ _ => trivial) (by decide) run
  exact ⟨s, reach, ((exhausted_ends reach).1 16 (by decide)).mpr (of_decide_eq_true fits)⟩

/-- The first huge region without memory to map. -/
theorem malloc_never_ends : ∃ s, Reach anyCalls s ∧
    ∀ fuel, seallocMalloc .broken fuel (2 ^ 21) s.world = .fuel := by
  have played : (Session.play (.willing fun n => (n + 1) * 2 ^ 44) 3 (2 ^ 45)
      []).map (fun s => decide (s.world.Fits (requestSize (2 ^ 21)))) = some false := by
    decide +kernel
  rcases Option.map_eq_some_iff.mp played with ⟨s, run, tight⟩
  have reach : Reach anyCalls s := play_reach (fun _ _ _ _ => trivial) (by decide) run
  exact ⟨s, reach, fun fuel => reach.inv.malloc_stuck (by decide) (of_decide_eq_false tight) fuel⟩

end Exhausted

end Sealloc
