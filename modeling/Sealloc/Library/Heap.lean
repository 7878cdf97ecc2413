import Mathlib.Logic.Function.Basic
import Mathlib.Data.Option.Basic

/-! Heaps in the abstract: regions that are apart, with the contents of their bytes. -/

namespace Sealloc.Library

/-- The lengths of the regions by their addresses, and the contents of their bytes. -/
structure Heap (β : Type) where
  lens : Nat → Option Nat
  bytes : Nat → Option β
  apart : ∀ {p q m n}, lens p = some m → lens q = some n → p ≠ q → p + m ≤ q ∨ q + n ≤ p
  covered : ∀ x, (bytes x).isSome ↔ ∃ p n, lens p = some n ∧ p ≤ x ∧ x < p + n

namespace Heap

variable {β : Type}

def empty : Heap β where
  lens := fun _ => none
  bytes := fun _ => none
  apart := fun impossible => by simp at impossible
  covered := by simp

/-- A range where there is nothing yet. -/
structure Fresh (h : Heap β) (q n : Nat) : Prop where
  unused : h.lens q = none
  apart : ∀ {p m}, h.lens p = some m → p + m ≤ q ∨ q + n ≤ p

theorem update_lens {lens : Nat → Option Nat} {q p m n : Nat} (unused : lens q = none) :
    Function.update lens q (some n) p = some m ↔ (p = q ∧ m = n) ∨ lens p = some m := by
  by_cases same : p = q
  · rw [same, Function.update_self, unused]
    simp [eq_comm]
  · rw [Function.update_of_ne same]
    simp [same]

def alloc (h : Heap β) (q n : Nat) (init : Nat → β) (fresh : h.Fresh q n) : Heap β where
  lens := Function.update h.lens q (some n)
  bytes := fun x => if q ≤ x ∧ x < q + n then some (init x) else h.bytes x
  apart := by
    intro p p' m m' here there different
    rcases (update_lens fresh.unused).mp here with ⟨rfl, rfl⟩ | old
    · rcases (update_lens fresh.unused).mp there with ⟨rfl, rfl⟩ | old'
      · exact absurd rfl different
      · exact (fresh.apart old').symm
    · rcases (update_lens fresh.unused).mp there with ⟨rfl, rfl⟩ | old'
      · exact fresh.apart old
      · exact h.apart old old' different
  covered := by
    intro x
    simp only [update_lens fresh.unused]
    by_cases inside : q ≤ x ∧ x < q + n
    · rw [if_pos inside]
      exact ⟨fun _ => ⟨q, n, Or.inl ⟨rfl, rfl⟩, inside⟩, fun _ => rfl⟩
    · rw [if_neg inside, h.covered]
      constructor
      · intro found
        rcases found with ⟨p, m, old, holds⟩
        exact ⟨p, m, Or.inr old, holds⟩
      · intro found
        rcases found with ⟨p, m, ⟨rfl, rfl⟩ | old, holds⟩
        · exact absurd holds inside
        · exact ⟨p, m, old, holds⟩

theorem erase_lens {lens : Nat → Option Nat} {p q m : Nat} :
    Function.update lens p none q = some m ↔ lens q = some m ∧ q ≠ p := by
  by_cases same : q = p
  · rw [same, Function.update_self]
    simp
  · rw [Function.update_of_ne same]
    simp [same]

/-- The bytes of a region are not those of another one. -/
theorem outside (h : Heap β) {p q m x : Nat} (found : h.lens q = some m) (low : q ≤ x)
    (high : x < q + m) (different : q ≠ p) : ¬ (p ≤ x ∧ x < p + (h.lens p).getD 0) := by
  intro inside
  cases there : h.lens p with
  | none =>
      rw [there] at inside
      simp only [Option.getD_none] at inside
      omega
  | some n =>
      rw [there] at inside
      simp only [Option.getD_some] at inside
      rcases h.apart found there different with before | after
      · omega
      · omega

def free (h : Heap β) (p : Nat) : Heap β where
  lens := Function.update h.lens p none
  bytes := fun x => if p ≤ x ∧ x < p + (h.lens p).getD 0 then none else h.bytes x
  apart := by
    intro q q' m m' here there different
    exact h.apart (erase_lens.mp here).1 (erase_lens.mp there).1 different
  covered := by
    intro x
    simp only [erase_lens]
    by_cases inside : p ≤ x ∧ x < p + (h.lens p).getD 0
    · rw [if_pos inside]
      constructor
      · simp
      · intro found
        rcases found with ⟨q, m, ⟨there, different⟩, low, high⟩
        exact absurd inside (h.outside there low high different)
    · rw [if_neg inside, h.covered]
      constructor
      · intro found
        rcases found with ⟨q, m, there, holds⟩
        refine ⟨q, m, ⟨there, ?_⟩, holds⟩
        intro same
        rw [same] at there holds
        rw [there] at inside
        exact inside holds
      · intro found
        rcases found with ⟨q, m, ⟨there, -⟩, holds⟩
        exact ⟨q, m, there, holds⟩

/-- The program stores to its regions. -/
def write (h : Heap β) (value : Nat → β) : Heap β where
  lens := h.lens
  bytes := fun x => (h.bytes x).map fun _ => value x
  apart := h.apart
  covered := by
    intro x
    rw [Option.isSome_map]
    exact h.covered x

section Regions

variable {h : Heap β} {p q m n x : Nat} {init : Nat → β} {fresh : h.Fresh q n}

theorem alloc_lens :
    (h.alloc q n init fresh).lens p = some m ↔ (p = q ∧ m = n) ∨ h.lens p = some m :=
  update_lens fresh.unused

theorem alloc_bytes_new (low : q ≤ x) (high : x < q + n) :
    (h.alloc q n init fresh).bytes x = some (init x) := if_pos ⟨low, high⟩

theorem alloc_bytes_old (found : h.lens p = some m) (low : p ≤ x) (high : x < p + m) :
    (h.alloc q n init fresh).bytes x = h.bytes x := by
  apply if_neg
  intro inside
  rcases fresh.apart found with before | after
  · omega
  · omega

theorem free_lens : (h.free p).lens q = some m ↔ h.lens q = some m ∧ q ≠ p := erase_lens

theorem free_bytes (found : h.lens q = some m) (different : q ≠ p) (low : q ≤ x)
    (high : x < q + m) : (h.free p).bytes x = h.bytes x :=
  if_neg (h.outside found low high different)

theorem write_bytes {value : Nat → β} (found : h.lens p = some m) (low : p ≤ x)
    (high : x < p + m) : (h.write value).bytes x = some (value x) := by
  have some := (h.covered x).mpr ⟨p, m, found, low, high⟩
  rcases Option.isSome_iff_exists.mp some with ⟨b, there⟩
  unfold write
  simp only [there, Option.map_some]

end Regions

end Heap

end Sealloc.Library
