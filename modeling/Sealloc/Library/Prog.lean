import Mathlib.Tactic

/-! Stateful programs that may stop before they return.

A program is a function from a state to an outcome. Besides returning, it may
call `abort`, end the process with `exit`, die on an undefined operation, or
still be inside a loop when the number of iterations it was given runs out. -/

namespace Sealloc.Library

inductive Outcome (σ α : Type) where
  | ok (value : α) (state : σ)
  | abort (state : σ)
  | exit (state : σ)
  | crash (state : σ)
  | fuel

def Prog (σ α : Type) := σ → Outcome σ α

variable {σ τ α β : Type}

namespace Prog

def pure (a : α) : Prog σ α := fun s => .ok a s

def bind (x : Prog σ α) (f : α → Prog σ β) : Prog σ β := fun s =>
  match x s with
  | .ok a t => f a t
  | .abort t => .abort t
  | .exit t => .exit t
  | .crash t => .crash t
  | .fuel => .fuel

instance : Monad (Prog σ) where
  pure := pure
  bind := bind

instance : LawfulMonad (Prog σ) := by
  refine LawfulMonad.mk' _ ?_ ?_ ?_
  · intro α x
    funext s
    change Prog.bind x Prog.pure s = x s
    unfold Prog.bind
    cases x s <;> rfl
  · intro α β a f
    rfl
  · intro α β γ x f g
    funext s
    change Prog.bind (Prog.bind x f) g s = Prog.bind x (fun a => Prog.bind (f a) g) s
    unfold Prog.bind
    cases x s <;> rfl

def get : Prog σ σ := fun s => .ok s s

def modify (f : σ → σ) : Prog σ Unit := fun s => .ok () (f s)

def abort : Prog σ α := fun s => .abort s

def exit : Prog σ α := fun s => .exit s

def crash : Prog σ α := fun s => .crash s

def outOfFuel : Prog σ α := fun _ => .fuel

/-- Run a program on a part of a larger state. -/
def zoom (read : τ → σ) (write : σ → τ → τ) (x : Prog σ α) : Prog τ α := fun t =>
  match x (read t) with
  | .ok a s => .ok a (write s t)
  | .abort s => .abort (write s t)
  | .exit s => .exit (write s t)
  | .crash s => .crash (write s t)
  | .fuel => .fuel

end Prog

/-- The ends of a program other than returning that a specification allows. -/
structure Ends (σ : Type) where
  exit : σ → Prop
  fuel : Prop

/-- What an outcome must satisfy: a returned value meets `Q`, the program has neither aborted
nor crashed, and the other two ends are among the allowed ones. -/
def Outcome.Holds (ends : Ends σ) (Q : α → σ → Prop) : Outcome σ α → Prop
  | .ok a s => Q a s
  | .abort _ => False
  | .exit s => ends.exit s
  | .crash _ => False
  | .fuel => ends.fuel

/-- Whether an outcome is a returned value of which `good` holds. -/
def Outcome.returns (good : α → σ → Bool) : Outcome σ α → Bool
  | .ok a s => good a s
  | _ => false

theorem Outcome.of_returns {good : α → σ → Bool} {out : Outcome σ α}
    (holds : out.returns good = true) : ∃ a s, out = .ok a s ∧ good a s = true := by
  cases out with
  | ok a s => exact ⟨a, s, rfl, holds⟩
  | abort s => simp [Outcome.returns] at holds
  | exit s => simp [Outcome.returns] at holds
  | crash s => simp [Outcome.returns] at holds
  | fuel => simp [Outcome.returns] at holds

/-- The weakest precondition of `x` for `Q`. -/
def wp (ends : Ends σ) (x : Prog σ α) (Q : α → σ → Prop) (s : σ) : Prop :=
  (x s).Holds ends Q

section Rules

variable {ends : Ends σ} {Q R : α → σ → Prop} {s : σ}

@[simp] theorem bind_apply (x : Prog σ α) (f : α → Prog σ β) (s : σ) :
    (x >>= f) s = match x s with
      | .ok a t => f a t
      | .abort t => .abort t
      | .exit t => .exit t
      | .crash t => .crash t
      | .fuel => .fuel := rfl

theorem bind_ok {x : Prog σ α} {f : α → Prog σ β} {s t : σ} {a : α} (run : x s = .ok a t) :
    (x >>= f) s = f a t := by
  rw [bind_apply, run]

theorem bind_congr_left {x y : Prog σ α} {f : α → Prog σ β} {s : σ} (same : x s = y s) :
    (x >>= f) s = (y >>= f) s := by
  rw [bind_apply, bind_apply, same]

theorem zoom_ok {read : τ → σ} {write : σ → τ → τ} {x : Prog σ α} {t : τ} {a : α} {s : σ}
    (run : x (read t) = .ok a s) : Prog.zoom read write x t = .ok a (write s t) := by
  unfold Prog.zoom
  rw [run]

@[simp] theorem pure_apply (a : α) (s : σ) :
    (Pure.pure a : Prog σ α) s = .ok a s := rfl

@[simp] theorem get_apply (s : σ) : (Prog.get : Prog σ σ) s = .ok s s := rfl

@[simp] theorem modify_apply (f : σ → σ) (s : σ) :
    Prog.modify f s = .ok () (f s) := rfl

theorem wp_of_eq {x y : Prog σ α} {t : σ} (same : x s = y t) (holds : wp ends y Q t) :
    wp ends x Q s := by
  unfold wp
  rw [same]
  exact holds

@[simp] theorem wp_pure (a : α) : wp ends (Pure.pure a) Q s ↔ Q a s := Iff.rfl

@[simp] theorem wp_get (Q : σ → σ → Prop) : wp ends Prog.get Q s ↔ Q s s := Iff.rfl

@[simp] theorem wp_modify (f : σ → σ) (Q : Unit → σ → Prop) :
    wp ends (Prog.modify f) Q s ↔ Q () (f s) := Iff.rfl

@[simp] theorem wp_exit : wp ends (Prog.exit : Prog σ α) Q s ↔ ends.exit s := Iff.rfl

@[simp] theorem wp_outOfFuel : wp ends (Prog.outOfFuel : Prog σ α) Q s ↔ ends.fuel := Iff.rfl

@[simp] theorem wp_bind (x : Prog σ β) (f : β → Prog σ α) :
    wp ends (x >>= f) Q s ↔ wp ends x (fun a t => wp ends (f a) Q t) s := by
  unfold wp
  rw [bind_apply]
  cases x s <;> rfl

theorem wp_mono {x : Prog σ α} (holds : wp ends x Q s)
    (weaker : ∀ a t, Q a t → R a t) : wp ends x R s := by
  unfold wp at holds ⊢
  cases result : x s with
  | ok a t =>
      rw [result] at holds
      exact weaker a t holds
  | abort t => rw [result] at holds; exact holds
  | exit t => rw [result] at holds; exact holds
  | crash t => rw [result] at holds; exact holds
  | fuel => rw [result] at holds; exact holds

theorem wp_ok {x : Prog σ α} {a : α} {t : σ} (holds : wp ends x Q s)
    (run : x s = .ok a t) : Q a t := by
  unfold wp at holds
  rw [run] at holds
  exact holds

theorem wp_of_ok {x : Prog σ α} {a : α} {t : σ} (run : x s = .ok a t) (holds : Q a t) :
    wp ends x Q s := by
  unfold wp
  rw [run]
  exact holds

end Rules

end Sealloc.Library
