import Sealloc.Library.Heap
import Sealloc.World.Balance
import Sealloc.World.Dead

/-! What the allocator is for: a heap whose regions keep their contents. Every run of the allocator
is a run of such a heap, with the same calls and results. -/

namespace Sealloc

open Library

/-- The answers that a program may get from a heap, and the heap afterwards. Of a size in the last
page of sizes `realloc` promises nothing. -/
inductive Answer (h : Heap Byte) : Call → Option Nat → Heap Byte → Prop
  | malloc {size q len : Nat} {init : Nat → Byte} (fresh : h.Fresh q len) (aligned : q % 16 = 0)
      (enough : size ≤ len) : Answer h (.malloc size) (some q) (h.alloc q len init fresh)
  | calloc {nmemb size q len : Nat} {init : Nat → Byte} (fresh : h.Fresh q len)
      (aligned : q % 16 = 0) (enough : nmemb * size < 2 ^ 64 → nmemb * size ≤ len ∧
        ∀ i < nmemb * size, init (q + i) = 0#8) :
      Answer h (.calloc nmemb size) (some q) (h.alloc q len init fresh)
  | callocNothing {nmemb size : Nat} (nothing : nmemb = 0 ∨ size = 0) :
      Answer h (.calloc nmemb size) none h
  | reallocNull {size q len : Nat} {init : Nat → Byte} (fresh : h.Fresh q len)
      (aligned : q % 16 = 0) (enough : size ≤ len) :
      Answer h (.realloc none size) (some q) (h.alloc q len init fresh)
  | realloc {p oldLen size q len : Nat} {init : Nat → Byte} (old : h.lens p = some oldLen)
      (fresh : h.Fresh q len) (aligned : q % 16 = 0) (enough : size ≤ sizeMax - 4095 →
        size ≤ len ∧ ∀ i < min oldLen size, some (init (q + i)) = h.bytes (p + i)) :
      Answer h (.realloc (some p) size) (some q) ((h.alloc q len init fresh).free p)
  | freeNull : Answer h (.free none) none h
  | free {p len : Nat} (old : h.lens p = some len) : Answer h (.free (some p)) none (h.free p)

/-- A step of a program with a heap. -/
inductive HeapStep : Event → Heap Byte → Heap Byte → Prop
  | call {h h' : Heap Byte} {call : Call} {result : Option Nat} (answer : Answer h call result h') :
      HeapStep (.call call result) h h'
  | write {h : Heap Byte} {memory : Nat → Byte} : HeapStep (.write memory) h (h.write memory)

/-- The program has the regions of the heap, with their contents. -/
structure Session.Shows (s : Session) (h : Heap Byte) : Prop where
  lens : ∀ p n, h.lens p = some n ↔ ∃ region ∈ s.live, region.ptr = p ∧ region.len = n
  bytes : ∀ region ∈ s.live, ∀ x, region.Holds x → h.bytes x = some (s.world.memory x)

section Answers

variable {s : Session} {w : World} {h h' : Heap Byte} {call : Call} {result : Option Nat} {q : Nat}

theorem Session.Shows.located (view : s.Shows h) (inv : s.Inv) {p n : Nat}
    (found : h.lens p = some n) : ∃ o, Located s.world p o n := by
  rcases (view.lens p n).mp found with ⟨region, member, rfl, rfl⟩
  exact inv.located region member

/-- What is returned is apart from all that the heap has, what is given up for it included. -/
theorem Session.Shows.fresh (view : s.Shows h) (inv : s.Inv)
    (answered : Answered s.world call (some q) w) : h.Fresh q (w.regionLen q) := by
  rcases answered.inv with ⟨g, world⟩
  rcases answered.new q rfl with ⟨new, o, len, located, -⟩
  rw [world.regionLen located]
  refine ⟨?_, ?_⟩
  · cases there : h.lens q with
    | none => rfl
    | some n =>
        rcases view.located inv there with ⟨o', before⟩
        exact absurd before (new o' n)
  · intro p m found
    rcases view.located inv found with ⟨o', before⟩
    by_contra overlap
    have inRegion : p ≤ max p q ∧ max p q < p + m := by
      have filled := world.located_pos located
      rcases inv.inv with ⟨g₀, world₀⟩
      have filled' := world₀.located_pos before
      omega
    have inNew : q ≤ max p q ∧ max p q < q + len := by
      have filled := world.located_pos located
      rcases inv.inv with ⟨g₀, world₀⟩
      have filled' := world₀.located_pos before
      omega
    by_cases lost : call.lost (some q) = some p
    · have spent := (answered.gone p lost).2 o' m before _ inRegion.1 inRegion.2
      exact world.not_spent located inNew.1 inNew.2 spent
    · have after := answered.keeps.located p o' m lost before
      have same := world.located_same after located inRegion.1 inRegion.2 inNew.1 inNew.2
      rw [same.1] at before
      exact new o' m before

/-- A heap that has what is returned and what is not given up. -/
theorem Session.Shows.after (view : s.Shows h) (inv : s.Inv)
    (answered : Answered s.world call result w)
    (lens : ∀ p n, h'.lens p = some n ↔ (result = some p ∧ n = w.regionLen p) ∨
      (h.lens p = some n ∧ call.lost result ≠ some p))
    (new : ∀ p, result = some p → ∀ x, p ≤ x → x < p + w.regionLen p →
      h'.bytes x = some (w.memory x))
    (old : ∀ p n x, h.lens p = some n → call.lost result ≠ some p → p ≤ x → x < p + n →
      h'.bytes x = h.bytes x) : (s.after call result w).Shows h' := by
  have live : ∀ region, region ∈ (s.after call result w).live ↔
      (∃ p, result = some p ∧ region = ⟨p, call.request, w.regionLen p⟩) ∨
        (region ∈ s.live ∧ call.lost result ≠ some region.ptr) := by
    intro region
    unfold Session.after
    simp only [List.mem_append, Option.mem_toList, Option.map_eq_some_iff, List.mem_filter,
      decide_eq_true_eq]
    apply or_congr_left
    apply exists_congr
    exact fun p => and_congr_right fun _ => eq_comm
  constructor
  · intro p n
    rw [lens, view.lens]
    constructor
    · rintro (⟨returned, rfl⟩ | ⟨⟨region, member, rfl, rfl⟩, kept⟩)
      · exact ⟨_, (live _).mpr (Or.inl ⟨p, returned, rfl⟩), rfl, rfl⟩
      · exact ⟨region, (live _).mpr (Or.inr ⟨member, kept⟩), rfl, rfl⟩
    · rintro ⟨region, member, rfl, rfl⟩
      rcases (live _).mp member with ⟨p, returned, rfl⟩ | ⟨before, kept⟩
      · exact Or.inl ⟨returned, rfl⟩
      · exact Or.inr ⟨⟨region, before, rfl, rfl⟩, kept⟩
  · intro region member x holds
    rcases (live _).mp member with ⟨p, returned, rfl⟩ | ⟨before, kept⟩
    · exact new p returned x holds.1 holds.2
    · rcases inv.located region before with ⟨o, located⟩
      have found := (view.lens region.ptr region.len).mpr ⟨region, before, rfl, rfl⟩
      rw [old _ _ x found kept holds.1 holds.2, view.bytes region before x holds]
      exact congrArg some (answered.keeps.bytes _ o _ x kept located holds.1 holds.2).symm

/-- A call that only allocates. -/
theorem Session.Shows.allocated (view : s.Shows h) (inv : s.Inv)
    (answered : Answered s.world call (some q) w) (kept : call.lost (some q) = none) :
    (s.after call (some q) w).Shows
      (h.alloc q (w.regionLen q) w.memory (view.fresh inv answered)) := by
  apply view.after inv answered
  · intro p n
    rw [Heap.alloc_lens, kept]
    simp only [Option.some.injEq, ne_eq, reduceCtorEq, not_false_iff, and_true]
    apply or_congr_left
    constructor
    · rintro ⟨rfl, rfl⟩
      exact ⟨rfl, rfl⟩
    · rintro ⟨rfl, rfl⟩
      exact ⟨rfl, rfl⟩
  · intro p same x low high
    rw [← Option.some.inj same] at low high
    exact Heap.alloc_bytes_new low high
  · exact fun p n x found _ low high => Heap.alloc_bytes_old found low high

/-- A call that gives something up and returns nothing, or does nothing. -/
theorem Session.Shows.released (view : s.Shows h) (inv : s.Inv)
    (answered : Answered s.world call none w)
    (lens : ∀ p n, h'.lens p = some n ↔ h.lens p = some n ∧ call.lost none ≠ some p)
    (old : ∀ p n x, h.lens p = some n → call.lost none ≠ some p → p ≤ x → x < p + n →
      h'.bytes x = h.bytes x) : (s.after call none w).Shows h' := by
  refine view.after inv answered ?_ (fun p impossible => by simp at impossible) old
  intro p n
  rw [lens]
  simp

end Answers

section Simulation

variable {s : Session} {w : World} {g : Layout} {h : Heap Byte} {env : Env} {fuel : Nat}
  {result : Option Nat}

theorem Malloced.region {size q : Nat} (malloced : Malloced s.world size q w) :
    q % 16 = 0 ∧ size ≤ w.regionLen q := by
  rcases malloced.inv with ⟨g, world⟩
  rcases malloced.located with ⟨o, len, located, enough⟩
  rw [world.regionLen located]
  exact ⟨world.located_aligned located, enough⟩

theorem Inv.realloc_replaced {w₀ : World} {p len size : Nat} {o : Origin} (inv : Inv w₀ g none)
    (stocked : Stocked w₀) (located : Located w₀ p o len) (word : size < 2 ^ 64)
    (run : seallocRealloc env fuel (some p) size w₀ = .ok result w) :
    ∃ q newLen, result = some q ∧ Replaced w₀ p len q newLen (o.request size) w ∧
      o.request size ≤ newLen := by
  rcases wp_ok (seallocRealloc_wp (exits_mayEnd env) inv stocked located word
    (inv.realloc_sane located run) fun _ => trivial) run with
      ⟨q, newLen, returned, replaced, enough, -⟩
  exact ⟨q, newLen, returned, replaced, enough⟩

theorem Session.Shows.realloc {p size : Nat} (view : s.Shows h) (inv : s.Inv)
    (legal : (Call.realloc (some p) size).Legal s)
    (run : seallocRealloc env fuel (some p) size s.world = .ok result w) :
    ∃ h', Answer h (.realloc (some p) size) result h' ∧
      (s.after (.realloc (some p) size) result w).Shows h' := by
  have answered : Answered s.world (.realloc (some p) size) result w := inv.answered legal run
  rcases legal.2 p rfl with ⟨region, member, rfl⟩
  rcases inv.inv with ⟨g, world⟩
  rcases inv.located region member with ⟨o, located⟩
  rcases world.realloc_replaced inv.stocked located legal.1 run with
    ⟨q, newLen, rfl, replaced, enough⟩
  rcases replaced.inv with ⟨g', world'⟩
  rcases replaced.located with ⟨o', located'⟩
  rcases replaced.copied with ⟨n, most, -, -, -, bytes⟩
  have length := world'.regionLen located'
  have found := (view.lens region.ptr region.len).mpr ⟨region, member, rfl, rfl⟩
  have fresh := view.fresh inv answered
  have different : q ≠ region.ptr := by
    intro same
    have unused := fresh.unused
    rw [same, found] at unused
    simp at unused
  refine ⟨(h.alloc q (w.regionLen q) w.memory fresh).free region.ptr,
    .realloc found fresh (world'.located_aligned located') ?_, ?_⟩
  · intro small
    have asked := o.request_enough small
    refine ⟨by omega, ?_⟩
    intro i inside
    rw [view.bytes region member (region.ptr + i) ⟨Nat.le_add_right _ i, by omega⟩]
    exact congrArg some (bytes i (by omega))
  · have new := @Heap.alloc_lens _ h q q (w.regionLen q) (w.regionLen q) w.memory fresh
    apply view.after inv answered
    · intro r m
      rw [Heap.free_lens, Heap.alloc_lens]
      simp only [Call.lost, Option.isSome_some, if_true, Option.some.injEq, ne_eq]
      constructor
      · rintro ⟨⟨rfl, rfl⟩ | old, other⟩
        · exact Or.inl ⟨rfl, rfl⟩
        · exact Or.inr ⟨old, fun same => other same.symm⟩
      · rintro (⟨rfl, rfl⟩ | ⟨old, other⟩)
        · exact ⟨Or.inl ⟨rfl, rfl⟩, different⟩
        · exact ⟨Or.inr old, fun same => other same.symm⟩
    · intro r same x low high
      rw [← Option.some.inj same] at low high
      rw [Heap.free_bytes (new.mpr (Or.inl ⟨rfl, rfl⟩)) different low high]
      exact Heap.alloc_bytes_new low high
    · intro r m x old kept low high
      have other : r ≠ region.ptr := fun same => kept (congrArg some same.symm)
      rw [Heap.free_bytes (Heap.alloc_lens.mpr (Or.inr old)) other low high]
      exact Heap.alloc_bytes_old old low high

/-- Every call that returns is answered as the heap would. -/
theorem Session.Shows.call {call : Call} (view : s.Shows h) (inv : s.Inv) (legal : call.Legal s)
    (run : call.run env fuel s.world = .ok result w) :
    ∃ h', Answer h call result h' ∧ (s.after call result w).Shows h' := by
  have answered := inv.answered legal run
  rcases inv.inv with ⟨g, world⟩
  cases call with
  | malloc size =>
      rcases wp_ok (@seallocMalloc_wp mayEnd _ g env fuel size world inv.stocked legal.1
        fun _ => trivial) run with ⟨q, rfl, malloced, -⟩
      have region := malloced.region
      exact ⟨_, .malloc (view.fresh inv answered) region.1 region.2,
        view.allocated inv answered rfl⟩
  | calloc nmemb size =>
      rcases wp_ok (@seallocCalloc_wp mayEnd _ g env fuel nmemb size world inv.stocked
        fun _ => trivial) run with ⟨nothing, rfl, rfl⟩ | ⟨-, q, rfl, malloced, zeros⟩
      · exact ⟨h, .callocNothing nothing,
          view.released inv answered (by simp [Call.lost]) fun _ _ _ _ _ _ _ => rfl⟩
      · have region := malloced.region
        refine ⟨_, .calloc (view.fresh inv answered) region.1 ?_,
          view.allocated inv answered rfl⟩
        intro word
        have product : u64 (nmemb * size) = nmemb * size := Nat.mod_eq_of_lt word
        rw [product] at region zeros
        exact ⟨region.2, fun i inside => zeros (q + i) (Nat.le_add_right q i) (by omega)⟩
  | realloc ptr size =>
      cases ptr with
      | none =>
          rcases wp_ok (@seallocMalloc_wp mayEnd _ g env fuel size world inv.stocked legal.1
            fun _ => trivial) run with ⟨q, rfl, malloced, -⟩
          have region := malloced.region
          exact ⟨_, .reallocNull (view.fresh inv answered) region.1 region.2,
            view.allocated inv answered rfl⟩
      | some p => exact view.realloc inv legal run
  | free ptr =>
      have none : result = none := Call.free_returns result w run
      subst none
      cases ptr with
      | none =>
          exact ⟨h, .freeNull,
            view.released inv answered (by simp [Call.lost]) fun _ _ _ _ _ _ _ => rfl⟩
      | some p =>
          rcases legal.2 p rfl with ⟨region, member, rfl⟩
          have found := (view.lens region.ptr region.len).mpr ⟨region, member, rfl, rfl⟩
          refine ⟨h.free region.ptr, .free found, view.released inv answered ?_ ?_⟩
          · intro q n
            rw [Heap.free_lens]
            simp only [Call.lost, ne_eq, Option.some.injEq, eq_comm]
          · intro q n x there kept low high
            have other : q ≠ region.ptr := fun same => kept (congrArg some same.symm)
            exact Heap.free_bytes there other low high

theorem Session.Shows.write (view : s.Shows h) (memory : Nat → Byte) :
    Session.Shows { s with world := { s.world with memory := memory } } (h.write memory) where
  lens := view.lens
  bytes := by
    intro region member x holds
    have found := (view.lens region.ptr region.len).mpr ⟨region, member, rfl, rfl⟩
    exact Heap.write_bytes found holds.1 holds.2

end Simulation

section Runs

variable {s : Session} {answers : Env → Prop} {events : List Event}

/-- Every run of the allocator is a run of a heap that keeps its contents, with the same calls,
results and writes; at its end the program has the regions of the heap, and in them what the heap
says. -/
theorem heap_refines {env : Env} {brk : Nat} {w₀ w : World}
    (granted : w₀.history.granted = w₀.maps) (findings : w₀.history.findings = [])
    (below : brk < maxUserspaceAddr64) (init : arenaInit env brk w₀ = .ok () w)
    (steps : Trace (Session.Step answers) events ⟨w, [], []⟩ s) :
    ∃ h, Trace HeapStep events Heap.empty h ∧ s.Shows h := by
  have start : Reach anyCalls ⟨w, [], []⟩ ∧ Session.Shows ⟨w, [], []⟩ Heap.empty := by
    refine ⟨.init granted findings below init, ?_, ?_⟩
    · simp [Heap.empty]
    · intro region member
      exact absurd member List.not_mem_nil
  have sim : ∀ event s t h, Reach anyCalls s ∧ s.Shows h → Session.Step answers event s t →
      ∃ h', HeapStep event h h' ∧ Reach anyCalls t ∧ t.Shows h' := by
    intro event s t h before step
    rcases before with ⟨reach, view⟩
    have reach' := step.reach reach
    cases step with
    | call legal _ run =>
        rcases view.call reach.inv legal run with ⟨h', answer, view'⟩
        exact ⟨h', .call answer, reach', view'⟩
    | write inside => exact ⟨_, .write, reach', view.write _⟩
  rcases steps.simulates sim start with ⟨h, run, -, view⟩
  exact ⟨h, run, view⟩

/-- A huge mapping that is reallocated and freed after a region was allocated. -/
theorem heap_refines_moved : ∃ (s : Session) (events : List Event) (h : Heap Byte),
    s.live.length = 1 ∧ s.dead.length = 2 ∧ Trace HeapStep events Heap.empty h ∧ s.Shows h := by
  have played : (Session.play (.willing fun n => (n + 1) * 2 ^ 44) 3 (2 ^ 45)
      [.malloc 16, .malloc (2 ^ 21), .realloc (some (2 ^ 46)) (2 ^ 22),
        .free (some 1048592)]).map (fun s => (s.live.length, s.dead.length)) = some (1, 2) := by
    decide +kernel
  rcases Option.map_eq_some_iff.mp played with ⟨s, run, both⟩
  rw [Prod.mk.injEq] at both
  rcases @play_steps (fun _ => True) s _ _ _ _ trivial run with ⟨w, events, init, steps⟩
  rcases heap_refines rfl rfl (by decide) init steps with ⟨h, trace, view⟩
  exact ⟨s, events, h, both.1, both.2, trace, view⟩

/-- A call that leaves a region to the program, or a write that leaves its bytes as they are. -/
def Event.Spares (region : UserRegion) (memory : Nat → Byte) : Event → Prop
  | .call c result => c.lost result ≠ some region.ptr
  | .write memory' => ∀ x, region.Holds x → memory' x = memory x

/-- The bytes of a region that the program neither gives up nor writes to stay as they are. -/
theorem contents_stay {t : Session} {region : UserRegion} (reach : Reach anyCalls s)
    (member : region ∈ s.live) (steps : Trace (Session.Step answers) events s t)
    (spared : ∀ event ∈ events, event.Spares region s.world.memory) :
    region ∈ t.live ∧ ∀ x, region.Holds x → t.world.memory x = s.world.memory x := by
  have keeps : ∀ event ∈ events, ∀ u v,
      (Reach anyCalls u ∧ region ∈ u.live ∧
        ∀ x, region.Holds x → u.world.memory x = s.world.memory x) →
      Session.Step answers event u v → Reach anyCalls v ∧ region ∈ v.live ∧
        ∀ x, region.Holds x → v.world.memory x = s.world.memory x := by
    intro event listed u v before step
    rcases before with ⟨reached, live, same⟩
    have spares := spared event listed
    refine ⟨step.reach reached, ?_⟩
    cases step with
    | @call _ env fuel call result w legal _ run =>
        have answered := reached.inv.answered legal run
        rcases reached.inv.located region live with ⟨o, located⟩
        constructor
        · exact List.mem_append_right _ (List.mem_filter.mpr ⟨live, decide_eq_true spares⟩)
        · intro x holds
          rw [← same x holds]
          exact answered.keeps.bytes region.ptr o region.len x spares located holds.1 holds.2
    | write inside => exact ⟨live, spares⟩
  have last := steps.invariant keeps ⟨reach, member, fun _ _ => rfl⟩
  exact ⟨last.2.1, last.2.2⟩

/-- A region through the life of another one. -/
theorem contents_stay_once : ∃ (s t : Session) (region : UserRegion), Reach anyCalls s ∧
    region ∈ s.live ∧ t.dead.length = 1 ∧
    region ∈ t.live ∧ ∀ x, region.Holds x → t.world.memory x = s.world.memory x := by
  have played : (Session.play (.willing fun n => (n + 1) * 2 ^ 44) 3 (2 ^ 45) [.malloc 16]).bind
      (fun s => (s.exec (.willing fun n => (n + 1) * 2 ^ 44) 3
        [.malloc (2 ^ 21), .free (some (2 ^ 46))]).map fun t => (s.live, t.dead.length)) =
          some ([⟨1048592, 16, 16⟩], 1) := by decide +kernel
  rcases Option.bind_eq_some_iff.mp played with ⟨s, first, rest⟩
  rcases Option.map_eq_some_iff.mp rest with ⟨t, second, both⟩
  rw [Prod.mk.injEq] at both
  have reach : Reach anyCalls s := play_reach (fun _ _ _ _ => trivial) (by decide) first
  have member : (⟨1048592, 16, 16⟩ : UserRegion) ∈ s.live := by
    rw [both.1]
    exact List.mem_singleton_self _
  rcases @exec_steps (fun _ => True) _ _ _ trivial _ _ second with ⟨events, steps, made⟩
  refine ⟨s, t, _, reach, member, both.2, contents_stay reach member steps ?_⟩
  intro event listed
  rcases made event listed with ⟨call, isCall, result, rfl⟩
  have kept : ∀ call ∈ [Call.malloc (2 ^ 21), .free (some (2 ^ 46))],
      call.lost result ≠ some 1048592 := by
    simp [Call.lost]
  exact kept call isCall

end Runs

end Sealloc
