import Mathlib.Data.List.Basic

/-! Runs of a labelled transition system, and what carries over along them: invariants, and runs of
a system that simulates. -/

namespace Sealloc.Library

variable {σ τ ℓ : Type}

/-- A run from one state to another by the labels of its steps. -/
inductive Trace (step : ℓ → σ → σ → Prop) : List ℓ → σ → σ → Prop
  | nil (s : σ) : Trace step [] s s
  | cons {l : ℓ} {ls : List ℓ} {s t u : σ} (first : step l s t) (rest : Trace step ls t u) :
      Trace step (l :: ls) s u

namespace Trace

variable {step : ℓ → σ → σ → Prop} {step' : ℓ → τ → τ → Prop} {ls : List ℓ} {l : ℓ} {s t u : σ}

theorem single (first : step l s t) : Trace step [l] s t := .cons first (.nil t)

theorem snoc (run : Trace step ls s t) (last : step l t u) : Trace step (ls ++ [l]) s u := by
  induction run with
  | nil s => exact single last
  | cons first _ ih => exact .cons first (ih last)

/-- What every step of a run keeps holds at its end. -/
theorem invariant {I : σ → Prop} (run : Trace step ls s t)
    (keeps : ∀ l ∈ ls, ∀ s t, I s → step l s t → I t) (start : I s) : I t := by
  induction run with
  | nil s => exact start
  | @cons l ls s t u first _ ih =>
      apply ih
      · exact fun l' member => keeps l' (List.mem_cons_of_mem l member)
      · exact keeps l List.mem_cons_self s t start first

/-- A system that matches every step matches every run, with the same labels. -/
theorem simulates {R : σ → τ → Prop}
    (sim : ∀ l s s' t, R s t → step l s s' → ∃ t', step' l t t' ∧ R s' t')
    (run : Trace step ls s u) : ∀ {t : τ}, R s t → ∃ t', Trace step' ls t t' ∧ R u t' := by
  induction run with
  | nil s => exact fun {t} related => ⟨t, .nil t, related⟩
  | @cons l ls s m u first _ ih =>
      intro t related
      rcases sim l s m t related first with ⟨t₁, step₁, related₁⟩
      rcases ih related₁ with ⟨t', rest, related'⟩
      exact ⟨t', .cons step₁ rest, related'⟩

end Trace

end Sealloc.Library
