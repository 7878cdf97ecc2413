import Sealloc.Library.Prog

/-! Programs by what holds of the states in which they return, whatever else may become of them,
and programs that only take steps of a preorder. -/

namespace Sealloc.Library

variable {σ τ α β : Type}

/-- The weakest liberal precondition of `x` for `Q`. -/
def wlp (x : Prog σ α) (Q : α → σ → Prop) (s : σ) : Prop := ∀ a t, x s = .ok a t → Q a t

section Rules

variable {Q R : α → σ → Prop} {s : σ}

@[simp] theorem wlp_pure (a : α) : wlp (Pure.pure a) Q s ↔ Q a s := by
  constructor
  · intro holds
    exact holds a s rfl
  · intro holds b t run
    rw [pure_apply] at run
    injection run with value state
    rw [← value, ← state]
    exact holds

@[simp] theorem wlp_get (Q : σ → σ → Prop) : wlp Prog.get Q s ↔ Q s s := by
  constructor
  · intro holds
    exact holds s s rfl
  · intro holds b t run
    rw [get_apply] at run
    injection run with value state
    rw [← value, ← state]
    exact holds

@[simp] theorem wlp_modify (f : σ → σ) (Q : Unit → σ → Prop) :
    wlp (Prog.modify f) Q s ↔ Q () (f s) := by
  constructor
  · intro holds
    exact holds () (f s) rfl
  · intro holds b t run
    rw [modify_apply] at run
    injection run with value state
    rw [← state]
    exact holds

@[simp] theorem wlp_bind (x : Prog σ β) (f : β → Prog σ α) :
    wlp (x >>= f) Q s ↔ wlp x (fun a t => wlp (f a) Q t) s := by
  unfold wlp
  constructor
  · intro holds a t run b u rest
    exact holds b u ((bind_ok run).trans rest)
  · intro holds b u run
    rw [bind_apply] at run
    cases first : x s with
    | ok a t =>
        rw [first] at run
        exact holds a t first b u run
    | abort t => simp [first] at run
    | exit t => simp [first] at run
    | crash t => simp [first] at run
    | fuel => simp [first] at run

theorem wlp_mono {x : Prog σ α} (holds : wlp x Q s) (weaker : ∀ a t, Q a t → R a t) :
    wlp x R s := fun a t run => weaker a t (holds a t run)

/-- What is specified of a program that returns, and what else holds where it does. -/
theorem wlp_both {ends : Ends σ} {x : Prog σ α} (spec : wp ends x Q s) (holds : wlp x R s) :
    wlp x (fun a t => Q a t ∧ R a t) s :=
  fun a t run => ⟨wp_ok spec run, holds a t run⟩

theorem wlp_of_ok {x : Prog σ α} {a : α} {t : σ} (run : x s = .ok a t) (holds : Q a t) :
    wlp x Q s := by
  intro b u run'
  rw [run] at run'
  injection run' with value state
  rw [← value, ← state]
  exact holds

theorem wlp_of_eq {x y : Prog σ α} {t : σ} (same : x s = y t) (holds : wlp y Q t) : wlp x Q s := by
  unfold wlp
  rw [same]
  exact holds

theorem wlp_of_wp {ends : Ends σ} {x : Prog σ α} (spec : wp ends x Q s) : wlp x Q s :=
  fun _ _ run => wp_ok spec run

theorem wlp_abort : wlp (Prog.abort : Prog σ α) Q s := fun _ _ run => nomatch run

theorem wlp_exit : wlp (Prog.exit : Prog σ α) Q s := fun _ _ run => nomatch run

theorem wlp_crash : wlp (Prog.crash : Prog σ α) Q s := fun _ _ run => nomatch run

theorem wlp_outOfFuel : wlp (Prog.outOfFuel : Prog σ α) Q s := fun _ _ run => nomatch run

end Rules

/-- Where `x` returns, it has gone from its state to one that `R` relates to it. -/
def Steps (R : σ → σ → Prop) (x : Prog σ α) : Prop := ∀ s, wlp x (fun _ t => R s t) s

namespace Steps

variable {R : σ → σ → Prop}

theorem mono {R' : σ → σ → Prop} {x : Prog σ α} (steps : Steps R x)
    (weaker : ∀ {s t}, R s t → R' s t) : Steps R' x :=
  fun s => wlp_mono (steps s) fun _ _ => weaker

theorem modify {f : σ → σ} (step : ∀ s, R s (f s)) : Steps R (Prog.modify f) :=
  fun s => (wlp_modify f _).mpr (step s)

theorem abort : Steps R (Prog.abort : Prog σ α) := fun _ => wlp_abort

theorem exit : Steps R (Prog.exit : Prog σ α) := fun _ => wlp_exit

theorem crash : Steps R (Prog.crash : Prog σ α) := fun _ => wlp_crash

theorem ite {c : Prop} [Decidable c] {x y : Prog σ α} (yes : Steps R x) (no : Steps R y) :
    Steps R (if c then x else y) := by
  by_cases holds : c
  · rw [if_pos holds]
    exact yes
  · rw [if_neg holds]
    exact no

theorem zoom {read : τ → σ} {write : σ → τ → τ} {x : Prog σ α} {R : τ → τ → Prop}
    (step : ∀ s t, R t (write s t)) : Steps R (Prog.zoom read write x) := by
  intro t a u run
  unfold Prog.zoom at run
  cases inner : x (read t) with
  | ok b s =>
      simp only [inner] at run
      injection run with value state
      rw [← state]
      exact step s t
  | abort s => simp [inner] at run
  | exit s => simp [inner] at run
  | crash s => simp [inner] at run
  | fuel => simp [inner] at run

variable [IsPreorder σ R]

theorem pure (a : α) : Steps R (Pure.pure a : Prog σ α) :=
  fun s => (wlp_pure a).mpr (refl_of R s)

theorem get : Steps R (Prog.get : Prog σ σ) := fun s => (wlp_get _).mpr (refl_of R s)

theorem bind {x : Prog σ β} {f : β → Prog σ α} (first : Steps R x) (rest : ∀ b, Steps R (f b)) :
    Steps R (x >>= f) := by
  intro s
  rw [wlp_bind]
  refine wlp_mono (first s) ?_
  intro b t step
  refine wlp_mono (rest b t) ?_
  intro a u step'
  exact trans_of R step step'

end Steps

end Sealloc.Library
