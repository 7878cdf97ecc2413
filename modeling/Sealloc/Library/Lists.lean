import Mathlib.Tactic

/-! Facts about lists that lookups and counters rest on. -/

namespace Sealloc.Library

variable {α : Type}

/-- A lookup finds the only entry it accepts. -/
theorem find?_unique {accepts : α → Bool} {entries : List α} {a : α} (member : a ∈ entries)
    (accepted : accepts a = true) (unique : ∀ b ∈ entries, accepts b = true → b = a) :
    entries.find? accepts = some a := by
  cases found : entries.find? accepts with
  | none =>
      have refused := List.find?_eq_none.mp found a member
      exact absurd accepted refused
  | some b =>
      have same := unique b (List.mem_of_find?_eq_some found) (List.find?_some found)
      rw [same]

end Sealloc.Library
