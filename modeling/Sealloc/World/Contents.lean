import Sealloc.World.Live

/-! What is in a returned region: how many bytes it has, and which ones. -/

namespace Sealloc

open Library Chunk

section Sizes

variable {s : Session} {w w' : World} {g : Layout} {env : Env} {fuel : Nat}

/-- No region is larger than the address space. -/
theorem Inv.located_len (inv : Inv w g none) {p len : Nat} {o : Origin}
    (located : Located w p o len) : len ≤ userspaceEnd := by
  cases o with
  | regular chunk b run =>
      rcases located with ⟨region, rfl⟩
      have facts := classSize_facts b (inv.runs b run region.1).isClass
      unfold largeSizeMaxRegion at facts
      unfold userspaceEnd
      omega
  | huge huge =>
      rcases located with ⟨member, -, rfl⟩
      exact (Nat.le_add_left _ _).trans (inv.huges huge member).high

theorem userspaceEnd_small : userspaceEnd ≤ sizeMax - 4095 := by
  decide

/-- The length of the region that a call has returned. -/
theorem Answered.regionLen {call : Call} {q : Nat} (answered : Answered w call (some q) w') :
    w'.regionLen q ≤ userspaceEnd ∧
      (call.request ≤ sizeMax - 4095 → call.request ≤ w'.regionLen q) := by
  rcases answered.inv with ⟨g, inv⟩
  rcases (answered.new q rfl).2 with ⟨o, len, located, enough⟩
  rw [inv.regionLen located]
  exact ⟨inv.located_len located, enough⟩

/-- A region that `sealloc_calloc` returns has the bytes that were asked for, all zero, exactly
when their number is a word. -/
theorem calloc_enough {nmemb size ptr : Nat} (reach : Reach anyCalls s)
    (call : seallocCalloc env fuel nmemb size s.world = .ok (some ptr) w) :
    (nmemb * size ≤ w.regionLen ptr ∧
      ∀ x, ptr ≤ x → x < ptr + nmemb * size → w.memory x = 0#8) ↔ nmemb * size < 2 ^ 64 := by
  have inv := reach.inv
  rcases inv.inv with ⟨g, world⟩
  have post := wp_ok (@seallocCalloc_wp mayEnd s.world g env fuel nmemb size world inv.stocked
    fun _ => trivial) call
  rcases post with ⟨-, impossible, -⟩ | ⟨-, q, same, malloced, zeros⟩
  · simp at impossible
  · rw [← Option.some.inj same] at malloced zeros
    rcases malloced.inv with ⟨g', world'⟩
    rcases malloced.located with ⟨o, len, located, fits⟩
    rw [world'.regionLen located]
    constructor
    · intro holds
      have bound := world'.located_len located
      unfold userspaceEnd at bound
      omega
    · intro word
      have product : u64 (nmemb * size) = nmemb * size := Nat.mod_eq_of_lt word
      rw [product] at fits zeros
      exact ⟨fits, zeros⟩

/-- A product that is a word. -/
theorem calloc_enough_once : ∃ s env fuel ptr w, Reach anyCalls s ∧
    seallocCalloc env fuel 3 5 s.world = .ok (some ptr) w ∧
    3 * 5 ≤ w.regionLen ptr ∧ ∀ x, ptr ≤ x → x < ptr + 3 * 5 → w.memory x = 0#8 := by
  have played : (Session.play (.willing fun n => (n + 1) * 2 ^ 44) 3 (2 ^ 45) []).map (fun s =>
      (seallocCalloc (.willing fun n => (n + 1) * 2 ^ 44) 3 3 5 s.world).returns
        fun r _ => r = some 1048592) = some true := by decide +kernel
  rcases Option.map_eq_some_iff.mp played with ⟨s, run, returned⟩
  have reach : Reach anyCalls s := play_reach (fun _ _ _ _ => trivial) (by decide) run
  rcases Outcome.of_returns returned with ⟨r, w, call, isPtr⟩
  rw [of_decide_eq_true isPtr] at call
  exact ⟨s, _, _, _, w, reach, call, (calloc_enough reach call).mpr (by decide)⟩

/-- The product wraps to zero, and the region has 16 bytes. -/
theorem calloc_wraps : ∃ s env fuel ptr w, Reach anyCalls s ∧
    seallocCalloc env fuel (2 ^ 32) (2 ^ 32) s.world = .ok (some ptr) w ∧
    w.regionLen ptr = 16 := by
  have played : (Session.play (.willing fun n => (n + 1) * 2 ^ 44) 3 (2 ^ 45) []).map (fun s =>
      (seallocCalloc (.willing fun n => (n + 1) * 2 ^ 44) 3 (2 ^ 32) (2 ^ 32) s.world).returns
        fun r w => r = some 1048592 ∧ w.regionLen 1048592 = 16) = some true := by decide +kernel
  rcases Option.map_eq_some_iff.mp played with ⟨s, run, returned⟩
  have reach : Reach anyCalls s := play_reach (fun _ _ _ _ => trivial) (by decide) run
  rcases Outcome.of_returns returned with ⟨r, w, call, checked⟩
  have both := of_decide_eq_true checked
  rw [both.1] at call
  exact ⟨s, _, _, _, w, reach, call, both.2⟩

/-- A region that `sealloc_realloc` returns has the bytes that were asked for, unless their
number is in the last page of sizes. -/
theorem realloc_enough {region : UserRegion} {newSize q : Nat} (reach : Reach anyCalls s)
    (member : region ∈ s.live) (word : newSize < 2 ^ 64)
    (call : seallocRealloc env fuel (some region.ptr) newSize s.world = .ok (some q) w) :
    newSize ≤ w.regionLen q ↔ newSize ≤ sizeMax - 4095 := by
  have legal : (Call.realloc (some region.ptr) newSize).Legal s :=
    ⟨word, fun p old => ⟨region, member, Option.some.inj old⟩⟩
  have answered : Answered s.world (.realloc (some region.ptr) newSize) (some q) w :=
    reach.inv.answered legal call
  have bounds := answered.regionLen
  constructor
  · intro enough
    exact (enough.trans bounds.1).trans userspaceEnd_small
  · exact bounds.2

/-- A huge region that becomes another one. -/
theorem realloc_enough_once : ∃ s env fuel region q w, Reach anyCalls s ∧ region ∈ s.live ∧
    seallocRealloc env fuel (some region.ptr) (2 ^ 22) s.world = .ok (some q) w ∧
    2 ^ 22 ≤ w.regionLen q := by
  have played : (Session.play (.willing fun n => (n + 1) * 2 ^ 44) 3 (2 ^ 45)
      [.malloc (2 ^ 21)]).map (fun s => (s.live,
        (seallocRealloc (.willing fun n => (n + 1) * 2 ^ 44) 3 (some (2 ^ 46)) (2 ^ 22)
          s.world).returns fun r _ => r = some (2 ^ 46 + 2 ^ 21 + 2 ^ 12))) =
            some ([⟨2 ^ 46, 2 ^ 21, 2 ^ 21⟩], true) := by decide +kernel
  rcases Option.map_eq_some_iff.mp played with ⟨s, run, both⟩
  rw [Prod.mk.injEq] at both
  have reach : Reach anyCalls s := play_reach (fun _ _ _ _ => trivial) (by decide) run
  have member : (⟨2 ^ 46, 2 ^ 21, 2 ^ 21⟩ : UserRegion) ∈ s.live := by
    rw [both.1]
    exact List.mem_singleton_self _
  rcases Outcome.of_returns both.2 with ⟨r, w, call, isPtr⟩
  rw [of_decide_eq_true isPtr] at call
  exact ⟨s, _, _, _, _, w, reach, member, call,
    (realloc_enough reach member (by decide) call).mpr (by decide)⟩

/-- The size of the new region, rounded up to whole pages, wraps to zero. -/
theorem realloc_wraps : ∃ s env fuel region q w, Reach anyCalls s ∧ region ∈ s.live ∧
    seallocRealloc env fuel (some region.ptr) (2 ^ 64 - 1) s.world = .ok (some q) w ∧
    w.regionLen q = 16 := by
  have played : (Session.play (.willing fun n => (n + 1) * 2 ^ 44) 3 (2 ^ 45)
      [.malloc (2 ^ 21)]).map (fun s => (s.live,
        (seallocRealloc (.willing fun n => (n + 1) * 2 ^ 44) 3 (some (2 ^ 46)) (2 ^ 64 - 1)
          s.world).returns fun r w => r = some 1048592 ∧ w.regionLen 1048592 = 16)) =
            some ([⟨2 ^ 46, 2 ^ 21, 2 ^ 21⟩], true) := by decide +kernel
  rcases Option.map_eq_some_iff.mp played with ⟨s, run, both⟩
  rw [Prod.mk.injEq] at both
  have reach : Reach anyCalls s := play_reach (fun _ _ _ _ => trivial) (by decide) run
  rcases Outcome.of_returns both.2 with ⟨r, w, call, checked⟩
  have returned := of_decide_eq_true checked
  rw [returned.1] at call
  refine ⟨s, _, _, ⟨2 ^ 46, 2 ^ 21, 2 ^ 21⟩, _, w, reach, ?_, call, returned.2⟩
  rw [both.1]
  exact List.mem_singleton_self _

end Sizes

/-- What `sealloc_realloc` promises about the bytes: those of the old region are in the new one
as far as both were asked for, no copy leaves the two regions, and all other regions are as they
were. -/
structure Preserved (s : Session) (region : UserRegion) (newSize q : Nat) (w : World) : Prop where
  moved : q ≠ region.ptr
  bytes : ∀ i < min region.request newSize,
    i < region.len ∧ w.memory (q + i) = s.world.memory (region.ptr + i)
  copies : ∃ fresh, w.history.copies = fresh ++ s.world.history.copies ∧ ∀ copy ∈ fresh,
    region.ptr ≤ copy.src ∧ copy.src + copy.len ≤ region.ptr + region.len ∧
      q ≤ copy.dst ∧ copy.dst + copy.len ≤ q + w.regionLen q
  others : ∀ other ∈ s.live, other.ptr ≠ region.ptr →
    (∃ o, Located w other.ptr o other.len) ∧ ∀ x, other.Holds x → w.memory x = s.world.memory x
  gone : ∀ o n, ¬ Located w region.ptr o n

section Contents

variable {s : Session} {w : World} {env : Env} {fuel : Nat} {region : UserRegion} {newSize q : Nat}

/-- Where the old region has the bytes that are to be kept, a replacement preserves them. -/
theorem Session.Inv.preserved {o : Origin} {newLen request : Nat} (inv : s.Inv)
    (located : Located s.world region.ptr o region.len)
    (replaced : Replaced s.world region.ptr region.len q newLen request w)
    (asked : newSize ≤ request) (covered : min region.request newSize ≤ region.len) :
    Preserved s region newSize q w := by
  rcases replaced.inv with ⟨g, world⟩
  rcases replaced.located with ⟨o', located'⟩
  rcases replaced.copied with ⟨n, most, short, fits, copies, bytes⟩
  have length : w.regionLen q = newLen := world.regionLen located'
  refine ⟨?_, ?_, ?_, ?_, replaced.gone⟩
  · intro same
    rw [same] at replaced
    exact replaced.new o region.len located
  · intro i inside
    have before : i < region.len := by omega
    exact ⟨before, bytes i (by omega)⟩
  · refine ⟨[⟨q, region.ptr, n⟩], copies, ?_⟩
    intro copy one
    rw [List.mem_singleton.mp one, length]
    exact ⟨Nat.le_refl _, Nat.add_le_add_left short _, Nat.le_refl _,
      Nat.add_le_add_left fits _⟩
  · intro other listed different
    rcases inv.located other listed with ⟨origin, there⟩
    refine ⟨⟨origin, replaced.keeps.located _ origin _ different there⟩, ?_⟩
    intro x holds
    exact replaced.keeps.bytes _ origin _ x different there holds.1 holds.2

theorem Session.Inv.realloc (inv : s.Inv) (member : region ∈ s.live) (least : 1 ≤ newSize)
    (most : newSize ≤ sizeMax - 4095)
    (call : seallocRealloc env fuel (some region.ptr) newSize s.world = .ok (some q) w)
    (covered : min region.request newSize ≤ region.len) : Preserved s region newSize q w := by
  rcases inv.inv with ⟨g, world⟩
  rcases inv.located region member with ⟨o, located⟩
  have word : newSize < 2 ^ 64 := by
    unfold sizeMax at most
    omega
  have post := wp_ok (seallocRealloc_wp (exits_mayEnd env) world inv.stocked located word
    (fun none => absurd none (by omega)) fun _ => trivial) call
  rcases post with ⟨r, newLen, same, replaced, -, -⟩
  rw [← Option.some.inj same] at replaced
  exact inv.preserved located replaced (o.request_enough most) covered

/-- With modest requests, every reallocation preserves what it should. -/
theorem realloc_preserves_modest (reach : Reach modestCalls s) (member : region ∈ s.live)
    (least : 1 ≤ newSize) (most : newSize ≤ sizeMax - 4095)
    (call : seallocRealloc env fuel (some region.ptr) newSize s.world = .ok (some q) w) :
    Preserved s region newSize q w := by
  have enough := reach.enough region member
  exact reach.inv.realloc member least most call ((Nat.min_le_left _ _).trans enough)

/-- A reallocation to at least one byte and not to the last page of sizes preserves what it
should exactly when the old region has the bytes that are to be kept. -/
theorem realloc_preserves (reach : Reach anyCalls s) (member : region ∈ s.live)
    (least : 1 ≤ newSize) (most : newSize ≤ sizeMax - 4095)
    (call : seallocRealloc env fuel (some region.ptr) newSize s.world = .ok (some q) w) :
    Preserved s region newSize q w ↔ min region.request newSize ≤ region.len := by
  constructor
  · intro preserved
    by_contra short
    have inside := (preserved.bytes region.len (by omega)).1
    exact Nat.lt_irrefl _ inside
  · exact reach.inv.realloc member least most call

/-- A small region that becomes a huge one. -/
theorem realloc_preserves_once : ∃ s env fuel region q w, Reach anyCalls s ∧ region ∈ s.live ∧
    seallocRealloc env fuel (some region.ptr) (2 ^ 21) s.world = .ok (some q) w ∧
    Preserved s region (2 ^ 21) q w := by
  have played : (Session.play (.willing fun n => (n + 1) * 2 ^ 44) 3 (2 ^ 45)
      [.malloc 16]).map (fun s => (s.live,
        (seallocRealloc (.willing fun n => (n + 1) * 2 ^ 44) 3 (some 1048592) (2 ^ 21)
          s.world).returns fun r _ => r = some (2 ^ 46))) =
            some ([⟨1048592, 16, 16⟩], true) := by decide +kernel
  rcases Option.map_eq_some_iff.mp played with ⟨s, run, both⟩
  rw [Prod.mk.injEq] at both
  have reach : Reach anyCalls s := play_reach (fun _ _ _ _ => trivial) (by decide) run
  have member : (⟨1048592, 16, 16⟩ : UserRegion) ∈ s.live := by
    rw [both.1]
    exact List.mem_singleton_self _
  rcases Outcome.of_returns both.2 with ⟨r, w, call, isPtr⟩
  rw [of_decide_eq_true isPtr] at call
  exact ⟨s, _, _, _, _, w, reach, member, call,
    (realloc_preserves reach member (by decide) (by decide) call).mpr (by decide)⟩

/-- The old region was asked for with a size in the last page of sizes and has 16 bytes. -/
theorem realloc_loses : ∃ s env fuel region q w, Reach anyCalls s ∧ region ∈ s.live ∧
    region.request = 2 ^ 64 - 1 ∧
    seallocRealloc env fuel (some region.ptr) (2 ^ 21) s.world = .ok (some q) w ∧
    ¬ Preserved s region (2 ^ 21) q w := by
  have played : (Session.play (.willing fun n => (n + 1) * 2 ^ 44) 3 (2 ^ 45)
      [.malloc (2 ^ 21), .realloc (some (2 ^ 46)) (2 ^ 64 - 1)]).map (fun s => (s.live,
        (seallocRealloc (.willing fun n => (n + 1) * 2 ^ 44) 3 (some 1048592) (2 ^ 21)
          s.world).returns fun r _ => r = some (2 ^ 46 + 2 ^ 21 + 2 ^ 12))) =
            some ([⟨1048592, 2 ^ 64 - 1, 16⟩], true) := by decide +kernel
  rcases Option.map_eq_some_iff.mp played with ⟨s, run, both⟩
  rw [Prod.mk.injEq] at both
  have reach : Reach anyCalls s := play_reach (fun _ _ _ _ => trivial) (by decide) run
  have member : (⟨1048592, 2 ^ 64 - 1, 16⟩ : UserRegion) ∈ s.live := by
    rw [both.1]
    exact List.mem_singleton_self _
  rcases Outcome.of_returns both.2 with ⟨r, w, call, isPtr⟩
  rw [of_decide_eq_true isPtr] at call
  refine ⟨s, _, _, _, _, w, reach, member, rfl, call, ?_⟩
  intro preserved
  have inside := (preserved.bytes 16 (by decide)).1
  simp at inside

end Contents

end Sealloc
