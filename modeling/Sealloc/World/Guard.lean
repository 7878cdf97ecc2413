import Sealloc.World.Granted
import Sealloc.World.Dead

/-! The page that is left behind the mappings of user memory. The probe pointers leave it only
between mappings of their own kind, so it is there as long as `mmap` grants nothing next to a
mapping of another kind or behind a pointer that was drawn anew. -/

namespace Sealloc

open Library

/-- The page behind a range. -/
def Span.guard (span : Span) : Span := ⟨span.start + span.len, pageSize⟩

/-- The page behind each chunk and each huge mapping holds nothing of any mapping of the arena. -/
def World.GuardGap (w : World) : Prop :=
  ∀ which, which ≠ .internalAlloc → ∀ span ∈ w.spans which, ∀ which', ∀ span' ∈ w.spans which',
    ∀ x, span.guard.Holds x → span'.Holds x → ¬ w.Mapped x

/-- A call in which `mmap` grants nothing in the page behind a chunk or a huge mapping of before
the call; and where the call gets such a mapping itself, the page behind it is apart from the other
ranges that are granted and from what was mapped for the arena. -/
def gapCalls : Env → Session → Call → Session → Prop := fun _ s _ s' =>
  ∀ span ∈ s.mapped s',
    (∀ which, which ≠ .internalAlloc → ∀ old ∈ s.world.spans which, old.guard.Apart span) ∧
    ∀ which, which ≠ .internalAlloc → span ∈ s'.world.spans which →
      (∀ other ∈ s.mapped s', span.guard.Apart other) ∧
      ∀ which', ∀ old ∈ s.world.spans which', ∀ x, span.guard.Holds x → old.Holds x →
        ¬ s.world.Mapped x

section Guard

variable {s s' : Session} {w : World} {span other : Span} {x : Nat}

theorem Span.Apart.excludes (apart : span.Apart other) (here : span.Holds x) : ¬ other.Holds x := by
  intro there
  unfold Span.Apart at apart
  unfold Span.Holds at here there
  omega

theorem GrantedSince.mem_mapped (since : GrantedSince s.world s'.world span) :
    span ∈ s.mapped s' := by
  rcases since with ⟨fresh, eq, member⟩
  rw [mapped_eq eq]
  exact member

/-- A call that keeps to the rule leaves the gaps. -/
theorem World.GuardGap.after {env : Env} {call : Call} (gap : s.world.GuardGap)
    (frame : SpanFrame [] s.world s'.world) (kept : gapCalls env s call s') :
    s'.world.GuardGap := by
  have origin : ∀ which, ∀ span ∈ s'.world.spans which,
      span ∈ s.world.spans which ∨ span ∈ s.mapped s' := by
    intro which span member
    rcases frame.spans which span member with old | new | none
    · exact Or.inl old
    · exact Or.inr new.mem_mapped
    · exact absurd none List.not_mem_nil
  intro which user span member which' span' member' x guarded inside mapped
  rcases origin which span member with old | new
  · -- the mapping was there: nothing is granted behind it
    have apart : ∀ fresh ∈ s.mapped s', ¬ fresh.Holds x := by
      intro fresh granted
      exact ((kept fresh granted).1 which user span old).excludes guarded
    rcases frame.mapped x mapped with before | ⟨fresh, since, holds⟩
    · rcases origin which' span' member' with old' | new'
      · exact gap which user span old which' span' old' x guarded inside before
      · exact apart span' new' inside
    · exact apart fresh since.mem_mapped holds
  · -- the mapping is new: neither the other new ones nor the old ones are behind it
    have behind := (kept span new).2 which user member
    have apart : ∀ fresh ∈ s.mapped s', ¬ fresh.Holds x := by
      intro fresh granted
      exact (behind.1 fresh granted).excludes guarded
    rcases frame.mapped x mapped with before | ⟨fresh, since, holds⟩
    · rcases origin which' span' member' with old' | new'
      · exact behind.2 which' span' old' x guarded inside before
      · exact apart span' new' inside
    · exact apart fresh since.mem_mapped holds

theorem MapFrame.spans {w w' : World} (frame : MapFrame w w') : w'.spans = w.spans := by
  funext which
  unfold World.spans
  rw [frame.chunkList, frame.hugeAllocList, frame.internalAllocList, frame.chunks, frame.huges]

/-- `arena_init` leaves no entries. -/
theorem arenaInit_spans {ends : Ends World} {env : Env} {brk : Nat}
    (below : brk < maxUserspaceAddr64) :
    wp ends (arenaInit env brk) (fun _ w' => ∀ which, w'.spans which = []) w := by
  apply wp_mono (arenaInit_frame below)
  intro _ w' post which
  rcases post with ⟨w₁, frame, rfl⟩
  have cleared : w₁.spans which = [] := by
    rw [frame.spans]
    cases which <;> rfl
  cases which <;> exact cleared

/-- Each mapping of the arena was granted to it. -/
theorem Reach.kept_granted (reach : Reach anyCalls s) :
    ∀ which, ∀ span ∈ s.world.spans which, span ∈ s.world.history.granted := by
  induction reach with
  | init granted findings below call =>
      intro which span member
      have cleared := wp_ok (@arenaInit_spans _ mayEnd _ _ below) call
      rw [cleared which] at member
      exact absurd member List.not_mem_nil
  | @call s env fuel call result w before legal kept run ih =>
      intro which span member
      have frame : SpanFrame [] s.world (s.after call result w).world :=
        Call.run_spans call fuel s.world result w run
      rcases frame.spans which span member with old | ⟨fresh, eq, new⟩ | none
      · rcases frame.granted with ⟨fresh, eq⟩
        rw [eq]
        exact List.mem_append_right _ (ih which span old)
      · rw [eq]
        exact List.mem_append_left _ new
      · exact absurd none List.not_mem_nil
  | write before inside ih => exact ih

/-- Neither of two ranges is in the page behind the other. -/
def Span.Gapped (span other : Span) : Prop := span.guard.Apart other ∧ other.guard.Apart span

instance (span other : Span) : Decidable (span.Gapped other) :=
  inferInstanceAs (Decidable (_ ∧ _))

instance : Std.Symm Span.Gapped where
  symm _ _ gapped := ⟨gapped.2, gapped.1⟩

theorem Span.gapped_self (span : Span) : span.Gapped span := by
  have behind : span.guard.Apart span := Or.inr (Nat.le_refl _)
  exact ⟨behind, behind⟩

/-- Where all ranges that were ever granted have a page between them, each call keeps to the
rule. -/
theorem Reach.gapped (reach : Reach anyCalls s)
    (gapped : s.world.history.granted.Pairwise Span.Gapped) : Reach gapCalls s := by
  induction reach with
  | init granted findings below call => exact .init granted findings below call
  | @call s env fuel call result w before legal kept run ih =>
      have frame : SpanFrame [] s.world (s.after call result w).world :=
        Call.run_spans call fuel s.world result w run
      rcases frame.granted with ⟨fresh, eq⟩
      rw [eq] at gapped
      have parts := List.pairwise_append.mp gapped
      have known := before.kept_granted
      refine .call (ih parts.2.1) legal ?_ run
      unfold gapCalls
      rw [mapped_eq eq]
      intro span new
      refine ⟨?_, ?_⟩
      · intro which user old listed
        exact (parts.2.2 span new old (known which old listed)).2
      · intro which user listed
        refine ⟨?_, ?_⟩
        · intro other new'
          exact (parts.1.forall_of_forall (fun span _ => span.gapped_self) new new').1
        · intro which' old listed' x guarded inside
          have apart := (parts.2.2 span new old (known which' old listed')).1
          exact absurd inside (apart.excludes guarded)
  | write _ inside ih => exact .write (ih gapped) inside

end Guard

end Sealloc
