import Sealloc.MallocApi
import Sealloc.World.Balance

/-! A process that calls the exported functions runs the allocator: its arena is initialised
once, by its first allocation. -/

namespace Sealloc

open Library

section Calls

variable {sys : System} {p p' : Process} {fuel : Nat}

theorem onArena_ok {α : Type} {call : Env → Prog World α} {a : α} :
    onArena sys call p = .ok a p' ↔
      ∃ w, call (sys.env.seeded p.secret) p.world = .ok a w ∧ p' = { p with world := w } := by
  unfold onArena Prog.zoom
  cases out : call (sys.env.seeded p.secret) p.world with
  | ok b w =>
      simp only [Outcome.ok.injEq]
      constructor
      · rintro ⟨rfl, rfl⟩
        exact ⟨w, ⟨rfl, rfl⟩, rfl⟩
      · rintro ⟨w', ⟨rfl, rfl⟩, rfl⟩
        exact ⟨rfl, rfl⟩
  | abort w => simp
  | exit w => simp
  | crash w => simp
  | fuel => simp

theorem onArena_wlp {α : Type} {call : Env → Prog World α} {Q : α → Process → Prop}
    (holds : ∀ a w, call (sys.env.seeded p.secret) p.world = .ok a w → Q a { p with world := w }) :
    wlp (onArena sys call) Q p := by
  intro a p' run
  rcases onArena_ok.mp run with ⟨w, inner, rfl⟩
  exact holds a w inner

theorem chooseSecret_wlp : wlp (chooseSecret sys) (fun _ p' => p' = p) p := by
  unfold chooseSecret
  cases sys.seed with
  | some seed => exact (wlp_pure _).mpr rfl
  | none =>
      simp only [wlp_bind, wlp_get]
      cases platformGetRandom sys p.secret with
      | ok secret => exact (wlp_pure _).mpr rfl
      | error status => exact wlp_exit

/-- What `arena_init` of the static arena leaves. -/
structure Initialised (sys : System) (p p' : Process) : Prop where
  isInitialized : p'.isInitialized = true
  init : ∃ brk < maxUserspaceAddr64,
    arenaInit (sys.env.seeded p'.secret) brk p.world = .ok () p'.world

theorem initArena_wlp : wlp (initArena sys) (fun _ p' => Initialised sys p p') p := by
  unfold initArena
  rw [wlp_bind]
  refine wlp_mono chooseSecret_wlp ?_
  rintro secret p₁ rfl
  unfold platformGetProgramBreak
  cases sys.sbrk with
  | error errno => exact wlp_exit
  | ok brk =>
      simp only [wlp_bind, wlp_modify]
      apply onArena_wlp
      intro _ w run
      exact ⟨rfl, brk.val, brk.property, run⟩

theorem initOnce_done (done : p.isInitialized = true) : initOnce sys p = .ok () p := by
  unfold initOnce
  simp [done]

/-- The first allocation initialises the arena. -/
theorem initOnce_first (first : p.isInitialized = false) :
    wlp (initOnce sys) (fun _ p' => Initialised sys p p') p := by
  unfold initOnce
  rw [wlp_bind, wlp_get, if_pos first]
  exact initArena_wlp

/-- An allocation, once the arena is initialised, is one of the allocator. -/
theorem process_run {call : Call} {result : Option Nat} (run : call.process sys fuel p = .ok result p') :
    ∃ p₁ w, (initOnce sys p = .ok () p₁ ∨ p₁ = p ∧ ∃ ptr, call = .free ptr) ∧
      call.run (sys.env.seeded p₁.secret) fuel p₁.world = .ok result w ∧
        p' = { p₁ with world := w } := by
  have once : ∀ inner : Env → Prog World (Option Nat),
      (do initOnce sys; onArena sys inner) p = .ok result p' →
        ∃ p₁ w, initOnce sys p = .ok () p₁ ∧
          inner (sys.env.seeded p₁.secret) p₁.world = .ok result w ∧ p' = { p₁ with world := w } := by
    intro inner ran
    rw [bind_apply] at ran
    cases init : initOnce sys p with
    | ok u p₁ =>
        rw [init] at ran
        rcases onArena_ok.mp ran with ⟨w, called, same⟩
        exact ⟨p₁, w, rfl, called, same⟩
    | abort q => simp [init] at ran
    | exit q => simp [init] at ran
    | crash q => simp [init] at ran
    | fuel => simp [init] at ran
  cases call with
  | malloc size =>
      rcases once _ run with ⟨p₁, w, init, called, same⟩
      exact ⟨p₁, w, Or.inl init, called, same⟩
  | calloc nmemb size =>
      rcases once _ run with ⟨p₁, w, init, called, same⟩
      exact ⟨p₁, w, Or.inl init, called, same⟩
  | realloc ptr newSize =>
      rcases once _ run with ⟨p₁, w, init, called, same⟩
      exact ⟨p₁, w, Or.inl init, called, same⟩
  | free ptr =>
      simp only [Call.process, processFree, bind_apply] at run
      cases inner : onArena sys (fun env => seallocFree env ptr) p with
      | ok u p₁ =>
          rw [inner] at run
          rcases onArena_ok.mp inner with ⟨w, called, same⟩
          injection run with value state
          refine ⟨p, w, Or.inr ⟨rfl, ptr, rfl⟩, ?_, state.symm.trans same⟩
          exact (bind_ok called).trans (congrArg (fun r => Outcome.ok r w) value)
      | abort q => simp [inner] at run
      | exit q => simp [inner] at run
      | crash q => simp [inner] at run
      | fuel => simp [inner] at run

end Calls

section Refinement

variable {sys : System} {start : Process} {s : ProcessSession}

/-- Before its first allocation a process has nothing, and frees nothing. -/
def ProcessSession.Idle (start : Process) (s : ProcessSession) : Prop := s = ⟨start, [], []⟩

/-- After it the process is in a state of a run of the allocator that its secret seeds. -/
structure ProcessSession.Running (sys : System) (start : Process) (s : ProcessSession) : Prop where
  isInitialized : s.process.isInitialized = true
  run : ∃ brk < maxUserspaceAddr64, ∃ w events,
    arenaInit (sys.env.seeded s.process.secret) brk start.world = .ok () w ∧
      Trace (Session.Step (· = sys.env.seeded s.process.secret)) events ⟨w, [], []⟩ s.session

theorem runs_process (fresh : start.Fresh) (runs : Runs sys start s) :
    s.Idle start ∨ s.Running sys start := by
  induction runs with
  | start => exact Or.inl rfl
  | @call s fuel call result p before legal run ih =>
      rcases process_run run with ⟨p₁, w, init, called, rfl⟩
      rcases ih with rfl | running
      · rcases init with init | ⟨rfl, ptr, rfl⟩
        · right
          have done := initOnce_first fresh.isInitialized () p₁ init
          rcases done.init with ⟨brk, below, arena⟩
          have allowed : call.Legal ⟨p₁.world, [], []⟩ := legal
          refine ⟨done.isInitialized, brk, below, p₁.world, [.call call result], arena, ?_⟩
          exact .single (.call allowed rfl called)
        · left
          cases ptr with
          | none =>
              injection called with value state
              rw [← value, ← state]
              rfl
          | some ptr =>
              rcases legal.2 ptr rfl with ⟨region, member, -⟩
              exact absurd member List.not_mem_nil
      · right
        have same : p₁ = s.process := by
          rcases init with init | ⟨same, -⟩
          · rw [initOnce_done running.isInitialized] at init
            injection init with _ state
            exact state.symm
          · exact same
        subst same
        rcases running.run with ⟨brk, below, w₁, events, arena, steps⟩
        exact ⟨running.isInitialized, brk, below, w₁, _, arena, steps.snoc (.call legal rfl called)⟩
  | @write s memory before inside ih =>
      rcases ih with rfl | running
      · left
        have same : memory = start.world.memory := by
          funext x
          by_contra changed
          rcases inside x changed with ⟨region, member, -⟩
          exact absurd member List.not_mem_nil
        rw [same]
        rfl
      · right
        rcases running.run with ⟨brk, below, w, events, arena, steps⟩
        exact ⟨running.isInitialized, brk, below, w, _, arena, steps.snoc (.write inside)⟩

/-- A process that has not allocated anything aborts when it frees a pointer. -/
theorem idle_free (fresh : start.Fresh) (fuel ptr : Nat) :
    (Call.free (some ptr)).process sys fuel start = .abort start := by
  have unknown : seallocFree (sys.env.seeded start.secret) (some ptr) start.world =
      .abort start.world := by
    unfold seallocFree locateMetadataForPtr arenaFindHugeMapping
    simp only [bind_apply, get_apply, fresh.chunkList, fresh.hugeAllocList, locateRun,
      List.find?_nil, pure_apply]
    rfl
  simp only [Call.process, processFree, bind_apply, onArena, Prog.zoom, unknown]

/-- Every state of a process is its first one, where nothing is allocated and every pointer that
is freed aborts, or a state of the allocator after one initialisation, both of which are seeded by
the secret. -/
theorem process_refines (fresh : start.Fresh) (runs : Runs sys start s) :
    (s.process = start ∧ s.live = [] ∧ s.dead = [] ∧
      ∀ fuel ptr, (Call.free (some ptr)).process sys fuel s.process = .abort s.process) ∨
    s.process.isInitialized = true ∧ ∃ brk < maxUserspaceAddr64, ∃ w events,
      arenaInit (sys.env.seeded s.process.secret) brk start.world = .ok () w ∧
        Trace (Session.Step (· = sys.env.seeded s.process.secret)) events ⟨w, [], []⟩ s.session := by
  rcases runs_process fresh runs with rfl | running
  · exact Or.inl ⟨rfl, rfl, rfl, idle_free fresh⟩
  · exact Or.inr ⟨running.isInitialized, running.run⟩

/-- The process allocates a region with the seed 2. -/
theorem process_refines_malloc : ∃ sys start s, start.Fresh ∧ Runs sys start s ∧
    s.live.length = 1 ∧
    ((s.process = start ∧ s.live = [] ∧ s.dead = [] ∧
      ∀ fuel ptr, (Call.free (some ptr)).process sys fuel s.process = .abort s.process) ∨
    s.process.isInitialized = true ∧ ∃ brk < maxUserspaceAddr64, ∃ w events,
      arenaInit (sys.env.seeded s.process.secret) brk start.world = .ok () w ∧
        Trace (Session.Step (· = sys.env.seeded s.process.secret)) events ⟨w, [], []⟩ s.session) := by
  let sys : System := ⟨.willing fun _ => 0, true, some ⟨[ascii '2'], by decide⟩, none, .ok [],
    none, .ok ⟨2 ^ 45, by decide⟩⟩
  let start : Process := ⟨false, 0, World.blank⟩
  have fresh : start.Fresh := ⟨rfl, rfl, rfl, rfl, rfl, rfl⟩
  have returned : ((Call.malloc 16).process sys 3 start).returns fun r _ => r = some 167836048 := by
    decide +kernel
  rcases Outcome.of_returns returned with ⟨r, p, call, isPtr⟩
  rw [of_decide_eq_true isPtr] at call
  have legal : (Call.malloc 16).Legal (ProcessSession.session ⟨start, [], []⟩) :=
    ⟨by decide, fun _ impossible => by simp [Call.old] at impossible⟩
  have runs := Runs.call .start legal call
  exact ⟨sys, start, _, fresh, runs, rfl, process_refines fresh runs⟩

end Refinement

section Replay

variable {sys : System} {start p : Process} {s : ProcessSession} {secret : Nat} {seed : CString}

theorem readSecret_lt (bytes : List Byte) (old : Nat) : readSecret bytes old < 2 ^ 32 := by
  unfold readSecret
  generalize value : (fun i => (bytes.getD i (BitVec.ofNat 8 (old / 2 ^ (8 * i)))).toNat) = byte
  have small : ∀ i, byte i < 2 ^ 8 := by
    intro i
    rw [← value]
    exact BitVec.isLt _
  have first := small 0
  have second := small 1
  have third := small 2
  have fourth := small 3
  dsimp only
  omega

theorem platformGetRandom_lt {old : Nat} (drawn : platformGetRandom sys old = .ok secret) :
    secret < 2 ^ 32 := by
  unfold platformGetRandom at drawn
  cases opened : sys.urandomOpen with
  | some errno => simp [opened] at drawn
  | none =>
      cases read : sys.urandomRead with
      | error errno => simp [opened, read] at drawn
      | ok bytes =>
          cases closed : sys.urandomClose with
          | some errno => simp [opened, read, closed] at drawn
          | none =>
              simp only [opened, read, closed, Except.ok.injEq] at drawn
              rw [← drawn]
              exact readSecret_lt bytes old

/-- The same process with `SEALLOC_SEED` set. -/
def System.withSeed (sys : System) (seed : CString) : System := { sys with seed := some seed }

/-- A state in which the secret is still to be chosen, from a static arena, or is chosen. -/
def Process.Settled (p : Process) : Prop := p.isInitialized = true ∨ p.secret = 0

theorem process_withSeed (noSeed : sys.seed = none) (drawn : platformGetRandom sys 0 = .ok secret)
    (read : str2u32 sys.charSigned seed = secret) (settled : p.Settled) (fuel : Nat) (call : Call) :
    call.process (sys.withSeed seed) fuel p = call.process sys fuel p := by
  have choice : p.secret = 0 → chooseSecret (sys.withSeed seed) p = chooseSecret sys p := by
    intro zero
    unfold chooseSecret System.withSeed
    simp only [noSeed, bind_apply, get_apply, zero, drawn, read]
  have init : initOnce (sys.withSeed seed) p = initOnce sys p := by
    rcases settled with done | zero
    · rw [initOnce_done done, initOnce_done done]
    · have arena : initArena (sys.withSeed seed) p = initArena sys p :=
        bind_congr_left (choice zero)
      unfold initOnce
      simp only [bind_apply, get_apply]
      by_cases first : p.isInitialized = false
      · rw [if_pos first, if_pos first]
        exact arena
      · rw [if_neg first, if_neg first]
  cases call with
  | malloc size => exact bind_congr_left init
  | calloc nmemb size => exact bind_congr_left init
  | realloc ptr newSize => exact bind_congr_left init
  | free ptr => rfl

theorem runs_settled (fresh : start.Fresh) (runs : Runs sys start s) : s.process.Settled := by
  rcases runs_process fresh runs with rfl | running
  · exact Or.inr fresh.secret
  · exact Or.inl running.isInitialized

/-- The secret that a debug build prints is a seed: with `SEALLOC_SEED` set to what was printed
the process has the same runs. -/
theorem secret_replays (fresh : start.Fresh) (noSeed : sys.seed = none)
    (drawn : platformGetRandom sys 0 = .ok secret) (stale : Nat → Byte) :
    ∃ seed : CString, (seLog stale (some secretMessage) [.word secret]).map output =
        some (usingSecret ++ seed.bytes ++ [ascii '\n']) ∧
      ∀ s, Runs (sys.withSeed seed) start s ↔ Runs sys start s := by
  have word := platformGetRandom_lt drawn
  have read := str2u32_unsignedString sys.charSigned word
  refine ⟨unsignedString secret, secretMessage_output stale word, ?_⟩
  intro s
  constructor
  · intro runs
    induction runs with
    | start => exact .start
    | call before legal run ih =>
        have settled := runs_settled fresh before
        rw [process_withSeed noSeed drawn read settled] at run
        exact .call ih legal run
    | write before inside ih => exact .write ih inside
  · intro runs
    induction runs with
    | start => exact .start
    | call before legal run ih =>
        have settled := runs_settled fresh before
        rw [← process_withSeed noSeed drawn read settled] at run
        exact .call ih legal run
    | write before inside ih => exact .write ih inside

/-- The secret 2 from `/dev/urandom`. -/
theorem secret_replays_two : ∃ sys start seed, Process.Fresh start ∧
    platformGetRandom sys 0 = .ok 2 ∧
    (seLog (fun _ => 0#8) (some secretMessage) [.word 2]).map output =
      some (usingSecret ++ CString.bytes seed ++ [ascii '\n']) ∧
    ∀ s, Runs (sys.withSeed seed) start s ↔ Runs sys start s := by
  let sys : System := ⟨.willing fun _ => 0, true, none, none, .ok [2#8], none,
    .ok ⟨2 ^ 45, by decide⟩⟩
  let start : Process := ⟨false, 0, World.blank⟩
  have fresh : start.Fresh := ⟨rfl, rfl, rfl, rfl, rfl, rfl⟩
  have drawn : platformGetRandom sys 0 = .ok 2 := by decide +kernel
  rcases secret_replays fresh rfl drawn fun _ => 0#8 with ⟨seed, printed, same⟩
  exact ⟨sys, start, seed, fresh, drawn, printed, same⟩

end Replay

end Sealloc
