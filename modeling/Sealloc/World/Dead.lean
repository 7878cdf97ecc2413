import Sealloc.World.Live

/-! What becomes of the regions that a program has given up: their bytes are not returned again
and their pointers are refused, as long as nothing is mapped where they were. -/

namespace Sealloc

open Library Chunk

/-- The ranges that were mapped from one state to a later one. -/
def Session.mapped (s s' : Session) : List Span :=
  s'.world.history.granted.take
    (s'.world.history.granted.length - s.world.history.granted.length)

/-- A call that maps nothing where a region that was ever returned is or was. -/
def freshCalls : Env → Session → Call → Session → Prop := fun _ s _ s' =>
  ∀ span ∈ s.mapped s', ∀ region ∈ s.live ++ s.dead, ∀ x, region.Holds x → ¬ span.Holds x

/-- A call while `mmap` grants every range that is asked for and of which no byte is mapped. -/
def grantedCalls : Env → Session → Call → Session → Prop := fun env _ _ _ =>
  ∀ n hint len, env.mmap n hint len = .granted hint

section Spent

variable {w : World} {g : Layout} {s s' : Session} {env : Env} {fuel : Nat} {call : Call}
  {result : Option Nat}

/-- A byte of a region that is allocated is not spent. -/
theorem Inv.not_spent (inv : Inv w g none) {p q x len : Nat} {o : Origin}
    (located : Located w q o len) (low : q ≤ x) (high : x < q + len) : ¬ Spent w p x := by
  intro spent
  rcases spent with ⟨chunk, b, run, region, low', high'⟩ | unmapped
  · cases o with
    | regular chunk' b' run' =>
        rcases located with ⟨region', rfl⟩
        have same := (inv.region_same region' region low high low' high').2.2.2.2
        simp at same
    | huge huge =>
        have owner := inv.owner _ _ x (inv.located_owner located low high)
          (inv.region_owner region low' high')
        simp [Origin.owner] at owner
  · exact unmapped (inv.owned _ x (inv.located_owner located low high))

theorem mapped_eq {fresh : List Span}
    (eq : s'.world.history.granted = fresh ++ s.world.history.granted) : s.mapped s' = fresh := by
  unfold Session.mapped
  rw [eq, List.length_append, Nat.add_sub_cancel, List.take_left]

/-- A byte that is spent and that no range that was mapped since holds. -/
theorem Keeps.still {w w' : World} {lost : Nat → Prop} (keeps : Keeps lost w w') {p x : Nat}
    (spent : Spent w p x)
    (unmapped : ∀ fresh, w'.history.granted = fresh ++ w.history.granted →
      ∀ span ∈ fresh, ¬ span.Holds x) : Spent w' p x := by
  rcases keeps.spent with ⟨fresh, eq, all⟩
  rcases all p x spent with still | ⟨span, member, holds⟩
  · exact still
  · exact absurd holds (unmapped fresh eq span member)

/-- The regions that a call takes from the program. -/
theorem after_dead {region : UserRegion} (member : region ∈ (s.after call result w).dead) :
    region ∈ s.live ∧ call.lost result = some region.ptr ∨ region ∈ s.dead := by
  rcases List.mem_append.mp member with lost | old
  · have both := List.mem_filter.mp lost
    exact Or.inl ⟨both.1, of_decide_eq_true both.2⟩
  · exact Or.inr old

/-- The bytes of the regions that were given up are spent. -/
structure Session.Spent (s : Session) : Prop where
  apart : s.dead.Pairwise UserRegion.Apart
  filled : ∀ region ∈ s.dead, 0 < region.len
  spent : ∀ region ∈ s.dead, ∀ x, region.Holds x → Sealloc.Spent s.world region.ptr x

/-- A region that the program has is apart from those that it has given up. -/
theorem Session.Spent.cross (dead : s.Spent) (inv : s.Inv) {region other : UserRegion}
    (member : region ∈ s.live) (member' : other ∈ s.dead) : region.Apart other := by
  rcases inv.inv with ⟨g, world⟩
  rcases inv.located region member with ⟨o, located⟩
  have filled := world.located_pos located
  have filled' := dead.filled other member'
  unfold UserRegion.Apart
  by_contra overlap
  have spent := dead.spent other member' (max region.ptr other.ptr) ⟨by omega, by omega⟩
  exact world.not_spent located (by omega) (by omega) spent

/-- A call after which nothing is mapped where a region was. -/
theorem Session.Spent.after (dead : s.Spent) (inv : s.Inv)
    (answered : Answered s.world call result w)
    (fresh : freshCalls env s call (s.after call result w)) : (s.after call result w).Spent where
  apart := by
    have old : s.live.Pairwise UserRegion.Apart := inv.apart
    apply List.pairwise_append.mpr
    refine ⟨old.sublist List.filter_sublist, dead.apart, ?_⟩
    intro region lost other member
    exact dead.cross inv (List.mem_filter.mp lost).1 member
  filled := by
    intro region member
    rcases inv.inv with ⟨g, world⟩
    rcases after_dead member with ⟨live, -⟩ | old
    · rcases inv.located region live with ⟨o, located⟩
      exact world.located_pos located
    · exact dead.filled region old
  spent := by
    intro region member x holds
    rcases after_dead member with ⟨live, lost⟩ | old
    · rcases inv.located region live with ⟨o, located⟩
      exact (answered.gone region.ptr lost).2 o region.len located x holds.1 holds.2
    · apply answered.keeps.still (dead.spent region old x holds)
      intro spans eq span member' held
      have mapped : s.mapped (s.after call result w) = spans := mapped_eq eq
      exact fresh span (mapped ▸ member') region (List.mem_append_right _ old) x holds held

theorem Reach.spent (reach : Reach freshCalls s) : s.Spent := by
  induction reach with
  | init _ _ _ _ =>
      refine ⟨List.Pairwise.nil, ?_, ?_⟩
      · intro region member
        exact absurd member List.not_mem_nil
      · intro region member
        exact absurd member List.not_mem_nil
  | call before legal fresh run ih =>
      exact ih.after before.inv (before.inv.answered legal run) fresh
  | write _ _ ih => exact ⟨ih.apart, ih.filled, ih.spent⟩

end Spent

section Once

variable {s : Session}

/-- Every byte of a region that was returned was in a range that was mapped before. -/
theorem Reach.covered (reach : Reach anyCalls s) : ∀ region ∈ s.live ++ s.dead, ∀ x,
    region.Holds x → ∃ span ∈ s.world.history.granted, span.Holds x := by
  have live : ∀ {s : Session}, s.Inv → ∀ region ∈ s.live, ∀ x, region.Holds x →
      ∃ span ∈ s.world.history.granted, span.Holds x := by
    intro s inv region member x holds
    rcases inv.inv with ⟨g, world⟩
    rcases inv.located region member with ⟨o, located⟩
    exact world.granted x (world.owned _ x (world.located_owner located holds.1 holds.2))
  induction reach with
  | init granted findings below call =>
      intro region member
      exact absurd member List.not_mem_nil
  | @call s env fuel call result w before legal kept run ih =>
      intro region member x holds
      have answered := before.inv.answered legal run
      rcases List.mem_append.mp member with isLive | isDead
      · exact live (before.inv.after answered) region isLive x holds
      · have earlier : region ∈ s.live ++ s.dead := by
          rcases after_dead isDead with ⟨isLive, -⟩ | old
          · exact List.mem_append_left _ isLive
          · exact List.mem_append_right _ old
        rcases ih region earlier x holds with ⟨span, found, inside⟩
        rcases answered.keeps.spent with ⟨fresh, eq, -⟩
        refine ⟨span, ?_, inside⟩
        have granted : (s.after call result w).world.history.granted =
            fresh ++ s.world.history.granted := eq
        rw [granted]
        exact List.mem_append_right _ found
  | write _ _ ih => exact ih

/-- Where no range is mapped twice, nothing is mapped where a region was. -/
theorem Reach.fresh (reach : Reach anyCalls s)
    (once : s.world.history.granted.Pairwise Span.Apart) : Reach freshCalls s := by
  induction reach with
  | init granted findings below call => exact .init granted findings below call
  | @call s env fuel call result w before legal kept run ih =>
      have answered := before.inv.answered legal run
      rcases answered.keeps.spent with ⟨fresh, eq, -⟩
      have granted : (s.after call result w).world.history.granted =
          fresh ++ s.world.history.granted := eq
      rw [granted] at once
      have parts := List.pairwise_append.mp once
      refine .call (ih parts.2.1) legal ?_ run
      intro span member region returned x holds held
      rw [mapped_eq granted] at member
      rcases before.covered region returned x holds with ⟨span', found, inside⟩
      have apart := parts.2.2 span member span' found
      unfold Span.Apart at apart
      unfold Span.Holds at held inside
      omega
  | write _ inside ih => exact .write (ih once) inside

/-- A pointer that was given up is refused ever after, and nothing changes, where no range is
mapped twice. -/
theorem dead_refused (reach : Reach anyCalls s)
    (once : s.world.history.granted.Pairwise Span.Apart) : ∀ region ∈ s.dead, ∀ env,
      seallocFree env (some region.ptr) s.world = .abort s.world ∧
        ∀ fuel newSize, seallocRealloc env fuel (some region.ptr) newSize s.world =
          .abort s.world := by
  intro region member env
  have dead := (reach.fresh once).spent
  rcases reach.inv.inv with ⟨g, world⟩
  have filled := dead.filled region member
  exact world.refuse (dead.spent region member region.ptr ⟨Nat.le_refl _, by omega⟩) env

/-- A huge region that was replaced and a small one that was freed. -/
theorem dead_refused_once : ∃ s, Reach anyCalls s ∧ s.dead.length = 2 ∧ ∀ region ∈ s.dead, ∀ env,
    seallocFree env (some region.ptr) s.world = .abort s.world ∧
      ∀ fuel newSize, seallocRealloc env fuel (some region.ptr) newSize s.world =
        .abort s.world := by
  have played : (Session.play (.willing fun n => (n + 1) * 2 ^ 44) 3 (2 ^ 45)
      [.malloc 16, .malloc (2 ^ 21), .realloc (some (2 ^ 46)) (2 ^ 22),
        .free (some 1048592)]).map (fun s => (s.dead.length,
          decide (s.world.history.granted.Pairwise Span.Apart))) = some (2, true) := by
    decide +kernel
  rcases Option.map_eq_some_iff.mp played with ⟨s, run, both⟩
  rw [Prod.mk.injEq] at both
  have reach : Reach anyCalls s := play_reach (fun _ _ _ _ => trivial) (by decide) run
  exact ⟨s, reach, both.1, dead_refused reach (of_decide_eq_true both.2)⟩

end Once

end Sealloc
