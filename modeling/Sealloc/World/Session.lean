import Sealloc.World.Calls

/-! Runs of the allocator: any calls of its functions by a program that frees and reallocates
only what it was given, with what the program has and what it has given up. -/

namespace Sealloc

open Library Chunk

/-- A region that was returned: where it is, the size it was asked for and the bytes it has. -/
structure UserRegion where
  ptr : Nat
  request : Nat
  len : Nat
  deriving DecidableEq, Repr

namespace UserRegion

def Holds (region : UserRegion) (x : Nat) : Prop :=
  region.ptr ≤ x ∧ x < region.ptr + region.len

def Apart (region other : UserRegion) : Prop :=
  region.ptr + region.len ≤ other.ptr ∨ other.ptr + other.len ≤ region.ptr

instance (region other : UserRegion) : Decidable (region.Apart other) :=
  inferInstanceAs (Decidable (_ ∨ _))

end UserRegion

inductive Call where
  | malloc (size : Nat)
  | calloc (nmemb size : Nat)
  | realloc (ptr : Option Nat) (newSize : Nat)
  | free (ptr : Option Nat)
  deriving DecidableEq, Repr

namespace Call

/-- The bytes that the program asks for. -/
def request : Call → Nat
  | .malloc size => size
  | .calloc nmemb size => nmemb * size
  | .realloc _ newSize => newSize
  | .free _ => 0

/-- The pointer that the program passes. -/
def old : Call → Option Nat
  | .malloc _ => none
  | .calloc _ _ => none
  | .realloc ptr _ => ptr
  | .free ptr => ptr

/-- The pointer that the program no longer has once the call has returned `result`. -/
def lost (call : Call) (result : Option Nat) : Option Nat :=
  match call with
  | .malloc _ => none
  | .calloc _ _ => none
  | .realloc ptr _ => if result.isSome then ptr else none
  | .free ptr => ptr

/-- The sizes are of type `size_t`. -/
def Words : Call → Prop
  | .malloc size => size < 2 ^ 64
  | .calloc nmemb size => nmemb < 2 ^ 64 ∧ size < 2 ^ 64
  | .realloc _ newSize => newSize < 2 ^ 64
  | .free _ => True

instance : (call : Call) → Decidable call.Words
  | .malloc size => inferInstanceAs (Decidable (size < 2 ^ 64))
  | .calloc nmemb size => inferInstanceAs (Decidable (nmemb < 2 ^ 64 ∧ size < 2 ^ 64))
  | .realloc _ newSize => inferInstanceAs (Decidable (newSize < 2 ^ 64))
  | .free _ => inferInstanceAs (Decidable True)

def run (env : Env) (fuel : Nat) : Call → Prog World (Option Nat)
  | .malloc size => seallocMalloc env fuel size
  | .calloc nmemb size => seallocCalloc env fuel nmemb size
  | .realloc ptr newSize => seallocRealloc env fuel ptr newSize
  | .free ptr => do
      seallocFree env ptr
      return none

end Call

/-- The bytes of the region that was returned at `ptr`. -/
def World.regionLen (w : World) (ptr : Nat) : Nat :=
  match w.history.origin ptr with
  | none => 0
  | some (.regular _ b _) => (w.arena.bins b).regSize
  | some (.huge huge) => (w.huges huge).len

/-- The allocator, the regions that the program has and those that it has given up. -/
structure Session where
  world : World
  live : List UserRegion
  dead : List UserRegion

/-- What a call that has returned `result` leaves. -/
def Session.after (s : Session) (call : Call) (result : Option Nat) (w : World) : Session where
  world := w
  live := (result.map fun ptr => ⟨ptr, call.request, w.regionLen ptr⟩).toList ++
    s.live.filter fun region => call.lost result ≠ some region.ptr
  dead := (s.live.filter fun region => call.lost result = some region.ptr) ++ s.dead

/-- The arguments are words, and a pointer that is passed is null or one of the program's. -/
def Call.Legal (call : Call) (s : Session) : Prop :=
  call.Words ∧ ∀ ptr, call.old = some ptr → ∃ region ∈ s.live, region.ptr = ptr

instance (call : Call) (s : Session) : Decidable (call.Legal s) := by
  unfold Call.Legal
  cases call.old with
  | none => exact decidable_of_iff call.Words (by simp)
  | some ptr =>
      exact decidable_of_iff (call.Words ∧ ∃ region ∈ s.live, region.ptr = ptr) (by simp)

/-- The states that a program can reach by calls that keep to `rule`; in between it writes to
the regions that it has. -/
inductive Reach (rule : Env → Session → Call → Session → Prop) : Session → Prop
  | init {env : Env} {w₀ w : World} {brk : Nat} (granted : w₀.history.granted = w₀.maps)
      (findings : w₀.history.findings = []) (below : brk < maxUserspaceAddr64)
      (call : arenaInit env brk w₀ = .ok () w) : Reach rule ⟨w, [], []⟩
  | call {s : Session} {env : Env} {fuel : Nat} {call : Call} {result : Option Nat} {w : World}
      (before : Reach rule s) (legal : call.Legal s)
      (kept : rule env s call (s.after call result w))
      (run : call.run env fuel s.world = .ok result w) : Reach rule (s.after call result w)
  | write {s : Session} {memory : Nat → Byte} (before : Reach rule s)
      (inside : ∀ x, memory x ≠ s.world.memory x → ∃ region ∈ s.live, region.Holds x) :
      Reach rule { s with world := { s.world with memory := memory } }

/-- Any calls. -/
def anyCalls : Env → Session → Call → Session → Prop := fun _ _ _ _ => True

theorem Reach.mono {rule rule' : Env → Session → Call → Session → Prop} {s : Session}
    (reach : Reach rule s) (weaker : ∀ env s call s', rule env s call s' → rule' env s call s') :
    Reach rule' s := by
  induction reach with
  | init granted findings below call => exact .init granted findings below call
  | call _ legal kept run ih => exact .call ih legal (weaker _ _ _ _ kept) run
  | write _ inside ih => exact .write ih inside

section Start

variable {w : World}

/-- The invariant of an arena without any metadata. -/
theorem Inv.start (chunks : w.arena.chunkList = []) (huges : w.arena.hugeAllocList = [])
    (roots : w.arena.internalAllocList = []) (bins : ∀ b, w.arena.bins b = Bin.zero)
    (brk : w.arena.brk < maxUserspaceAddr64)
    (granted : ∀ x, w.Mapped x → ∃ span ∈ w.history.granted, span.Holds x)
    (findings : ∀ finding ∈ w.history.findings, finding.Passes) :
    Inv w ⟨fun _ => [], fun _ => [], fun _ => 0⟩ none := by
  have runs : ∀ b, w.arena.entries (.run b) = [] := fun b => entries_zero (bins b)
  have entries : ∀ kind, w.arena.entries kind = [] := by
    intro kind
    cases kind with
    | chunk => exact chunks
    | huge => exact huges
    | run b => exact runs b
  have owns : ∀ o x, ¬ Owns w ⟨fun _ => [], fun _ => [], fun _ => 0⟩ o x := by
    intro o x owns
    cases o with
    | internal root =>
        have member := owns.1
        rw [roots] at member
        exact absurd member List.not_mem_nil
    | chunk chunk =>
        have member := owns.1
        rw [chunks] at member
        exact absurd member List.not_mem_nil
    | huge huge =>
        have member := owns.1
        rw [huges] at member
        exact absurd member List.not_mem_nil
  refine ⟨brk, ⟨?_, ?_, ?_, ?_, ?_, ?_, ?_⟩, ?_, ?_, ?_, ?_, ?_, ?_, fun b => Or.inl (bins b), ?_,
    ?_, ?_, granted, findings, ?_⟩
  · rw [roots]
    exact List.nodup_nil
  · simp [roots]
  · simp [roots]
  · simp [roots]
  · simp [entries]
  · simp [entries]
  · simp [entries]
  · simp [chunks]
  · simp [runs]
  · simp [runs]
  · simp [chunks]
  · simp [runs]
  · simp
  · simp [huges]
  · exact fun o o' x one _ => absurd one (owns o x)
  · exact fun o x one => absurd one (owns o x)
  · intro ptr o len located
    cases o with
    | regular chunk b run =>
        have member := located.1.1
        rw [runs] at member
        exact absurd member List.not_mem_nil
    | huge huge =>
        have member := located.1
        rw [huges] at member
        exact absurd member List.not_mem_nil

/-- `arena_init` only maps, moves the probe pointers and clears the lists and the bins. -/
theorem arenaInit_frame {ends : Ends World} {env : Env} {brk : Nat}
    (below : brk < maxUserspaceAddr64) : wp ends (arenaInit env brk) (fun _ w' => ∃ w₁,
      MapFrame (w.setArena { w.arena with
        brk := brk
        internalAllocList := []
        chunkList := []
        hugeAllocList := [] }) w₁ ∧
      w' = w₁.setArena { w₁.arena with bins := fun _ => Bin.zero }) w := by
  unfold arenaInit
  simp only [wp_bind, wp_modify]
  generalize start : w.setArena { w.arena with
    brk := brk
    internalAllocList := []
    chunkList := []
    hugeAllocList := [] } = w₀
  have brk₀ : w₀.arena.brk < maxUserspaceAddr64 := by
    rw [← start]
    exact below
  apply wp_mono (resetChunkPtrStart_resets env ends w₀ brk₀)
  intro _ w₁ first
  apply wp_mono (resetPtrStart_resets env .internalAlloc ends w₁ (first.brk brk₀))
  intro _ w₂ second
  apply wp_mono (resetPtrStart_resets env .hugeAlloc ends w₂ (second.brk (first.brk brk₀)))
  intro _ w₃ third
  exact ⟨w₃, (first.trans second).trans third, rfl⟩

/-- What `arena_init` leaves. -/
theorem arenaInit_wp {ends : Ends World} {env : Env} {brk : Nat}
    (granted : w.history.granted = w.maps) (findings : w.history.findings = [])
    (below : brk < maxUserspaceAddr64) :
    wp ends (arenaInit env brk) (fun _ w' => (∃ g, Inv w' g none) ∧ Stocked w') w := by
  apply wp_mono (arenaInit_frame below)
  intro _ w' post
  rcases post with ⟨w₁, frame, rfl⟩
  refine ⟨⟨_, Inv.start ?_ ?_ ?_ (fun _ => rfl) (frame.brk below) ?_ ?_⟩, fun _ => Or.inl rfl⟩
  · exact frame.chunkList
  · exact frame.hugeAllocList
  · exact frame.internalAllocList
  · intro x mapped
    rcases frame.granted with ⟨fresh, eq, all⟩
    have list : (w₁.setArena { w₁.arena with bins := fun _ => Bin.zero }).history.granted =
        fresh ++ w.maps := by
      rw [← granted]
      exact eq
    rw [list]
    rcases (all x).mp mapped with ⟨span, member, holds⟩ | ⟨span, member, holds⟩
    · exact ⟨span, List.mem_append_right _ member, holds⟩
    · exact ⟨span, List.mem_append_left _ member, holds⟩
  · have none : w₁.history.findings = [] := frame.findings.trans findings
    intro finding member
    rw [show (w₁.setArena { w₁.arena with bins := fun _ => Bin.zero }).history.findings =
      w₁.history.findings from rfl, none] at member
    exact absurd member List.not_mem_nil

end Start

/-- What a call of the allocator does to the regions: the lost one is freed, the returned one
was not allocated before, and all others stay. -/
structure Answered (w : World) (call : Call) (result : Option Nat) (w' : World) : Prop where
  inv : ∃ g, Inv w' g none
  stocked : Stocked w'
  keeps : Keeps (fun p => call.lost result = some p) w w'
  gone : ∀ p, call.lost result = some p → (∀ o n, ¬ Located w' p o n) ∧
    ∀ o len, Located w p o len → ∀ x, p ≤ x → x < p + len → Spent w' p x
  new : ∀ q, result = some q → (∀ o n, ¬ Located w q o n) ∧
    ∃ o len, Located w' q o len ∧ (call.request ≤ sizeMax - 4095 → call.request ≤ len)

/-- The process may end, when `munmap` fails, with all findings as they should be; and it may
stay in the search for memory. -/
def mayEnd : Ends World := ⟨fun w => ∀ finding ∈ w.history.findings, finding.Passes, True⟩

theorem exits_mayEnd (env : Env) : Exits env mayEnd := fun _ _ _ _ _ passes => passes

section Answers

variable {w w' : World} {g : Layout} {env : Env} {fuel : Nat}

theorem Malloced.answered {call : Call} {size q : Nat} (malloced : Malloced w size q w')
    (kept : call.lost (some q) = none)
    (enough : call.request ≤ sizeMax - 4095 → call.request ≤ size) :
    Answered w call (some q) w' where
  inv := malloced.inv
  stocked := malloced.stocked
  keeps := malloced.grows.keeps.mono fun p is => is.elim
  gone := by
    intro p lost
    rw [kept] at lost
    simp at lost
  new := by
    intro p same
    rw [Option.some.inj same.symm]
    rcases malloced.located with ⟨o, len, located, fits⟩
    exact ⟨malloced.new, o, len, located, fun small => (enough small).trans fits⟩

/-- A call that does nothing. -/
theorem Answered.nothing {call : Call} (inv : Inv w g none) (stocked : Stocked w)
    (kept : call.lost none = none) : Answered w call none w where
  inv := ⟨g, inv⟩
  stocked := stocked
  keeps := Keeps.refl w
  gone := by
    intro p lost
    rw [kept] at lost
    simp at lost
  new := by simp

theorem Released.answered {o : Origin} {p len : Nat} (inv : Inv w g none) (stocked : Stocked w)
    (located : Located w p o len) (released : Released w p len w') :
    Answered w (.free (some p)) none w' where
  inv := released.inv
  stocked := released.stocked stocked
  keeps := released.keeps.mono fun q same => by rw [same]; rfl
  gone := by
    intro q lost
    have same : p = q := Option.some.inj lost
    subst same
    refine ⟨released.gone, ?_⟩
    intro o' len' located' x low high
    rcases inv.located_unique located located' with ⟨-, rfl⟩
    exact released.spent x low high
  new := by simp

theorem Replaced.answered {o : Origin} {p q len newLen newSize request : Nat} (inv : Inv w g none)
    (stocked : Stocked w) (located : Located w p o len)
    (replaced : Replaced w p len q newLen request w')
    (enough : newSize ≤ sizeMax - 4095 → newSize ≤ newLen) :
    Answered w (.realloc (some p) newSize) (some q) w' where
  inv := replaced.inv
  stocked := replaced.stocked stocked
  keeps := replaced.keeps.mono fun q same => by rw [same]; rfl
  gone := by
    intro r lost
    have same : p = r := Option.some.inj lost
    subst same
    refine ⟨replaced.gone, ?_⟩
    intro o' len' located' x low high
    rcases inv.located_unique located located' with ⟨-, rfl⟩
    exact replaced.spent x low high
  new := by
    intro r same
    rw [Option.some.inj same.symm]
    rcases replaced.located with ⟨o', located'⟩
    exact ⟨replaced.new, o', newLen, located', enough⟩

/-- `sealloc_realloc` to no bytes of a region of a run divides by zero, unless the bin that it
then looks in is in use. -/
theorem seallocRealloc_zero {p len chunk b run : Nat} (inv : Inv w g none)
    (located : Located w p (.regular chunk b run) len) (unused : w.arena.bins 36 = Bin.zero) :
    seallocRealloc env fuel (some p) 0 w = .crash w := by
  have nonzero := inv.region_regSize located.1
  have valid := (inv.validate_region located.1).mpr rfl
  have small : ¬ isSizeHuge 0 := by decide
  have clear : (w.arena.bins 36).regSize = 0 := by rw [unused]; rfl
  have bin : arenaGetBinByRegSize (alignupSize 0) w = .crash w := by
    unfold arenaGetBinByRegSize
    rw [alignupSize_zero.2, alignupSize_zero.1]
    simp only [bind_apply, get_apply, if_pos clear, binInit]
    rfl
  unfold seallocRealloc
  simp only [bind_apply, inv.locate located, Origin.metadata, get_apply, if_neg nonzero,
    if_neg valid]
  unfold reallocRegular allocateRegular
  simp only [bind_apply, get_apply, if_neg small, bin]

theorem Origin.request_enough (o : Origin) {newSize : Nat} (small : newSize ≤ sizeMax - 4095) :
    newSize ≤ o.request newSize := by
  cases o with
  | regular chunk b run => exact Nat.le_refl newSize
  | huge huge => exact (alignupPage_spec small).1

/-- Every call from a state of the invariant, but for a reallocation to no bytes that divides
by zero. -/
theorem Call.run_wp {call : Call} (inv : Inv w g none) (stocked : Stocked w) (words : call.Words)
    (located : ∀ p, call.old = some p → ∃ o len, Located w p o len) :
    wp mayEnd (call.run env fuel) (Answered w call) w ∨
      (∃ p, call = .realloc (some p) 0) ∧ call.run env fuel w = .crash w := by
  have exits := exits_mayEnd env
  cases call with
  | malloc size =>
      left
      apply wp_mono (seallocMalloc_wp inv stocked words fun _ => trivial)
      intro r w₁ post
      rcases post with ⟨q, rfl, malloced, -⟩
      exact malloced.answered rfl fun _ => Nat.le_refl size
  | calloc nmemb size =>
      left
      apply wp_mono (seallocCalloc_wp inv stocked fun _ => trivial)
      intro r w₁ post
      rcases post with ⟨-, rfl, rfl⟩ | ⟨-, q, rfl, malloced, -⟩
      · exact Answered.nothing inv stocked rfl
      · apply malloced.answered rfl
        intro small
        have word : nmemb * size < 2 ^ 64 := by
          have product : nmemb * size ≤ sizeMax - 4095 := small
          unfold sizeMax at product
          omega
        exact (Nat.mod_eq_of_lt word).ge
  | realloc ptr newSize =>
      cases ptr with
      | none =>
          left
          apply wp_mono (seallocMalloc_wp inv stocked words fun _ => trivial)
          intro r w₁ post
          rcases post with ⟨q, rfl, malloced, -⟩
          exact malloced.answered rfl fun _ => Nat.le_refl newSize
      | some p =>
          rcases located p rfl with ⟨o, len, found⟩
          by_cases sane : newSize = 0 → (∃ huge, o = .huge huge) ∨ w.arena.bins 36 ≠ Bin.zero
          · left
            apply wp_mono (seallocRealloc_wp exits inv stocked found words sane fun _ => trivial)
            intro r w₁ post
            rcases post with ⟨q, newLen, rfl, replaced, enough, -⟩
            exact replaced.answered inv stocked found fun small =>
              (o.request_enough small).trans enough
          · right
            have cases' : newSize = 0 ∧ (¬ ∃ huge, o = .huge huge) ∧ w.arena.bins 36 = Bin.zero := by
              simpa only [Classical.not_imp, not_or, not_not] using sane
            rcases cases' with ⟨rfl, notHuge, unused⟩
            refine ⟨⟨p, rfl⟩, ?_⟩
            cases o with
            | huge huge => exact absurd ⟨huge, rfl⟩ notHuge
            | regular chunk b run => exact seallocRealloc_zero inv found unused
  | free ptr =>
      left
      cases ptr with
      | none => exact Answered.nothing inv stocked rfl
      | some p =>
          rcases located p rfl with ⟨o, len, found⟩
          unfold Call.run
          rw [wp_bind]
          apply wp_mono (seallocFree_wp exits inv found)
          intro _ w₁ released
          exact released.answered inv stocked found

/-- What a call that has returned did. -/
theorem Call.run_answered {call : Call} {result : Option Nat} (inv : Inv w g none)
    (stocked : Stocked w) (words : call.Words)
    (located : ∀ p, call.old = some p → ∃ o len, Located w p o len)
    (run : call.run env fuel w = .ok result w') : Answered w call result w' := by
  rcases @Call.run_wp w g env fuel call inv stocked words located with spec | ⟨-, crash⟩
  · exact wp_ok spec run
  · rw [crash] at run
    simp at run

end Answers

/-- What holds between calls: the allocator keeps its invariant, and what the program has is
allocated. -/
structure Session.Inv (s : Session) : Prop where
  inv : ∃ g, Sealloc.Inv s.world g none
  stocked : Stocked s.world
  located : ∀ region ∈ s.live, ∃ o, Located s.world region.ptr o region.len
  distinct : (s.live.map UserRegion.ptr).Nodup

section Sessions

variable {s : Session} {w : World} {g : Layout} {env : Env} {fuel : Nat} {call : Call}
  {result : Option Nat}

/-- The length of a region as it is recorded when it is returned. -/
theorem Inv.regionLen (inv : Inv w g none) {p len : Nat} {o : Origin}
    (located : Located w p o len) : w.regionLen p = len := by
  have origin := inv.origin p o len located
  unfold World.regionLen
  rw [origin]
  cases o with
  | regular chunk b run =>
      have size : (w.arena.bins b).regSize = classSize b := (inv.ready located.1.1).regSize
      exact size.trans located.2.symm
  | huge huge => exact located.2.2.symm

theorem Session.Inv.legal (inv : s.Inv) (legal : call.Legal s) :
    call.Words ∧ ∀ p, call.old = some p → ∃ o len, Located s.world p o len := by
  refine ⟨legal.1, ?_⟩
  intro p old
  rcases legal.2 p old with ⟨region, member, rfl⟩
  rcases inv.located region member with ⟨o, located⟩
  exact ⟨o, region.len, located⟩

/-- What a legal call that has returned did. -/
theorem Session.Inv.answered (inv : s.Inv) (legal : call.Legal s)
    (run : call.run env fuel s.world = .ok result w) : Answered s.world call result w := by
  rcases inv.inv with ⟨g, world⟩
  have args := inv.legal legal
  exact Call.run_answered world inv.stocked args.1 args.2 run

theorem Session.Inv.after (inv : s.Inv) (answered : Answered s.world call result w) :
    (s.after call result w).Inv where
  inv := answered.inv
  stocked := answered.stocked
  located := by
    intro region member
    rcases answered.inv with ⟨g, world⟩
    rcases List.mem_append.mp member with new | old
    · cases result with
      | none => exact absurd new List.not_mem_nil
      | some q =>
          rcases (answered.new q rfl).2 with ⟨o, len, located, -⟩
          have same : region = ⟨q, call.request, w.regionLen q⟩ := List.mem_singleton.mp new
          rw [same]
          refine ⟨o, ?_⟩
          rw [world.regionLen located]
          exact located
    · rcases List.mem_filter.mp old with ⟨before, stays⟩
      rcases inv.located region before with ⟨o, located⟩
      exact ⟨o, answered.keeps.located _ o _ (of_decide_eq_true stays) located⟩
  distinct := by
    have old : ((s.live.filter fun region => call.lost result ≠ some region.ptr).map
        UserRegion.ptr).Nodup :=
      inv.distinct.sublist (List.filter_sublist.map UserRegion.ptr)
    cases result with
    | none => exact old
    | some q =>
        apply List.nodup_cons.mpr
        refine ⟨?_, old⟩
        intro member
        rcases List.mem_map.mp member with ⟨region, kept, same⟩
        rcases inv.located region (List.mem_filter.mp kept).1 with ⟨o, located⟩
        rw [same] at located
        exact (answered.new q rfl).1 o region.len located

theorem Session.Inv.write (inv : s.Inv) (memory : Nat → Byte) :
    Session.Inv { s with world := { s.world with memory := memory } } where
  inv := by
    rcases inv.inv with ⟨g, world⟩
    exact ⟨g, world.withMemory memory⟩
  stocked := inv.stocked
  located := inv.located
  distinct := inv.distinct

/-- The invariant holds in every state that can be reached. -/
theorem Reach.inv {rule : Env → Session → Call → Session → Prop} (reach : Reach rule s) :
    s.Inv := by
  induction reach with
  | init granted findings below call =>
      have start := wp_ok (@arenaInit_wp _ mayEnd _ _ granted findings below) call
      refine ⟨start.1, start.2, ?_, List.nodup_nil⟩
      intro region member
      exact absurd member List.not_mem_nil
  | call _ legal _ run ih => exact ih.after (ih.answered legal run)
  | write _ _ ih => exact ih.write _

end Sessions

/-- The state after calls, each of which is legal and returns. -/
def Session.exec (env : Env) (fuel : Nat) : List Call → Session → Option Session
  | [], s => some s
  | call :: rest, s =>
      if call.Legal s then
        match call.run env fuel s.world with
        | .ok result w => exec env fuel rest (s.after call result w)
        | _ => none
      else none

/-- The state after `arena_init` in a process with nothing mapped, and then calls. -/
def Session.play (env : Env) (fuel brk : Nat) (calls : List Call) : Option Session :=
  match arenaInit env brk World.blank with
  | .ok _ w => exec env fuel calls ⟨w, [], []⟩
  | _ => none

section Play

variable {rule : Env → Session → Call → Session → Prop} {env : Env} {fuel : Nat}

theorem exec_reach {calls : List Call} (kept : ∀ call ∈ calls, ∀ s s', rule env s call s') :
    ∀ {s s' : Session}, Reach rule s → s.exec env fuel calls = some s' → Reach rule s' := by
  induction calls with
  | nil =>
      intro s s' reach run
      rw [Option.some.inj run.symm]
      exact reach
  | cons call rest ih =>
      intro s s' reach run
      unfold Session.exec at run
      by_cases legal : call.Legal s
      · rw [if_pos legal] at run
        cases outcome : call.run env fuel s.world with
        | ok result w =>
            rw [outcome] at run
            have here := kept call List.mem_cons_self s (s.after call result w)
            exact ih (fun c member => kept c (List.mem_cons_of_mem _ member))
              (.call reach legal here outcome) run
        | abort w => simp [outcome] at run
        | exit w => simp [outcome] at run
        | crash w => simp [outcome] at run
        | fuel => simp [outcome] at run
      · rw [if_neg legal] at run
        simp at run

theorem play_reach {calls : List Call} {brk : Nat} {s : Session}
    (kept : ∀ call ∈ calls, ∀ s s', rule env s call s') (below : brk < maxUserspaceAddr64)
    (run : Session.play env fuel brk calls = some s) : Reach rule s := by
  unfold Session.play at run
  cases outcome : arenaInit env brk World.blank with
  | ok value w =>
      rw [outcome] at run
      exact exec_reach kept (.init rfl rfl below outcome) run
  | abort w => simp [outcome] at run
  | exit w => simp [outcome] at run
  | crash w => simp [outcome] at run
  | fuel => simp [outcome] at run

end Play

end Sealloc
