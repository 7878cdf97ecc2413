import Sealloc.Library.Prog

/-! Programs that never call `abort`, whatever else may become of them. -/

namespace Sealloc.Library

variable {σ τ α β : Type}

def NoAbort (x : Prog σ α) : Prop := ∀ s t, x s ≠ .abort t

namespace NoAbort

theorem pure (a : α) : NoAbort (Pure.pure a : Prog σ α) := fun _ _ aborts => nomatch aborts

theorem get : NoAbort (Prog.get : Prog σ σ) := fun _ _ aborts => nomatch aborts

theorem modify (f : σ → σ) : NoAbort (Prog.modify f) := fun _ _ aborts => nomatch aborts

theorem exit : NoAbort (Prog.exit : Prog σ α) := fun _ _ aborts => nomatch aborts

theorem crash : NoAbort (Prog.crash : Prog σ α) := fun _ _ aborts => nomatch aborts

theorem bind {x : Prog σ β} {f : β → Prog σ α} (first : NoAbort x) (rest : ∀ b, NoAbort (f b)) :
    NoAbort (x >>= f) := by
  intro s t aborts
  rw [bind_apply] at aborts
  cases run : x s with
  | ok b u =>
      rw [run] at aborts
      exact rest b u t aborts
  | abort u => exact first s u run
  | exit u => simp [run] at aborts
  | crash u => simp [run] at aborts
  | fuel => simp [run] at aborts

theorem ite {c : Prop} [Decidable c] {x y : Prog σ α} (yes : NoAbort x) (no : NoAbort y) :
    NoAbort (if c then x else y) := by
  by_cases holds : c
  · rw [if_pos holds]
    exact yes
  · rw [if_neg holds]
    exact no

theorem zoom {read : τ → σ} {write : σ → τ → τ} {x : Prog σ α} (inner : NoAbort x) :
    NoAbort (Prog.zoom read write x) := by
  intro t u aborts
  unfold Prog.zoom at aborts
  cases run : x (read t) with
  | ok a s => simp [run] at aborts
  | abort s => exact inner _ s run
  | exit s => simp [run] at aborts
  | crash s => simp [run] at aborts
  | fuel => simp [run] at aborts

end NoAbort

end Sealloc.Library
