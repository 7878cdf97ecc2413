import Mathlib.Data.Set.Basic

/-! Steps that keep account of a set which is read off the state: what it gains is in the hands of
the running program, and what leaves those hands is in it no more. -/

namespace Sealloc.Library

variable {σ α : Type}

/-- But for what is held before and after, `read` finds nothing in `t` that it did not find in
`s`. -/
def Accounts (read : σ → Set α) (held : Set α) (s : σ) (held' : Set α) (t : σ) : Prop :=
  read t \ held' ⊆ read s \ held

namespace Accounts

variable {read : σ → Set α} {held held' held'' other taken : Set α} {s t u : σ}

theorem refl (held : Set α) (s : σ) : Accounts read held s held s := fun _ => id

theorem trans (first : Accounts read held s held' t) (second : Accounts read held' t held'' u) :
    Accounts read held s held'' u := fun _ member => first (second member)

/-- What is held besides stays in hand. -/
theorem frame (other : Set α) (step : Accounts read held s held' t) :
    Accounts read (held ∪ other) s (held' ∪ other) t := by
  intro a member
  have outside : a ∉ held' ∧ a ∉ other := not_or.mp member.2
  have before := step ⟨member.1, outside.1⟩
  exact ⟨before.1, fun inside => inside.elim before.2 outside.2⟩

theorem take (gains : read t ⊆ read s ∪ taken) : Accounts read ∅ s taken t := by
  intro a member
  exact ⟨(gains member.1).resolve_right member.2, id⟩

theorem give (loses : read t ⊆ read s \ held) : Accounts read held s ∅ t := by
  intro a member
  exact loses member.1

theorem same (equal : read t = read s) : Accounts read held s held t := by
  unfold Accounts
  rw [equal]

/-- With empty hands nothing is gained. -/
theorem settled (step : Accounts read ∅ s ∅ t) : read t ⊆ read s :=
  fun _ member => (step ⟨member, id⟩).1

/-- What was held and is found no more can be forgotten. -/
theorem release (step : Accounts read held s taken t) (gone : ∀ a ∈ taken, a ∉ read t) :
    Accounts read held s ∅ t := by
  intro a member
  exact step ⟨member.1, fun inside => gone a inside member.1⟩

end Accounts

end Sealloc.Library
