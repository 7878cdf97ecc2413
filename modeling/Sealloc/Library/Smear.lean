import Mathlib.Tactic

/-! Filling every bit below the highest one of a word by doubling shifts. -/

namespace Sealloc.Library

/-- Bit `i` of `m` is set when one of the `s` bits of `n` from `i` upwards is. -/
def Filled (s n m : Nat) : Prop :=
  ∀ i, m.testBit i = true ↔ ∃ j < s, n.testBit (i + j) = true

theorem filled_one (n : Nat) : Filled 1 n n := by
  intro i
  constructor
  · intro set
    exact ⟨0, Nat.one_pos, set⟩
  · rintro ⟨j, first, set⟩
    rw [Nat.lt_one_iff.mp first] at set
    exact set

/-- Joining a filled word with its own shift doubles the reach. -/
theorem Filled.double {s n m : Nat} (filled : Filled s n m) :
    Filled (s + s) n (m ||| m >>> s) := by
  intro i
  rw [Nat.testBit_or, Nat.testBit_shiftRight, Bool.or_eq_true, filled i, filled (s + i)]
  constructor
  · rintro (⟨j, near, set⟩ | ⟨j, near, set⟩)
    · exact ⟨j, by omega, set⟩
    · refine ⟨s + j, by omega, ?_⟩
      have same : i + (s + j) = s + i + j := by omega
      rw [same]
      exact set
  · rintro ⟨j, reach, set⟩
    by_cases near : j < s
    · exact Or.inl ⟨j, near, set⟩
    · refine Or.inr ⟨j - s, by omega, ?_⟩
      have same : s + i + (j - s) = i + j := by omega
      rw [same]
      exact set

/-- Once the reach covers the word, what is filled is one less than a power of two. -/
theorem Filled.eq {s n m : Nat} (filled : Filled s n m) (word : n < 2 ^ s) :
    m = 2 ^ Nat.clog 2 (n + 1) - 1 := by
  apply Nat.eq_of_testBit_eq
  intro i
  rw [Nat.testBit_two_pow_sub_one, Bool.eq_iff_iff, filled i, decide_eq_true_iff,
    Nat.lt_clog_iff_pow_lt Nat.one_lt_two, Nat.lt_succ_iff]
  constructor
  · rintro ⟨j, -, set⟩
    calc
      2 ^ i ≤ 2 ^ (i + j) := Nat.pow_le_pow_right Nat.two_pos (Nat.le_add_right i j)
      _ ≤ n := Nat.ge_two_pow_of_testBit set
  · intro large
    rcases Nat.exists_ge_and_testBit_of_ge_two_pow large with ⟨k, above, set⟩
    have inside : k < s := by
      by_contra outside
      have reaches := Nat.ge_two_pow_of_testBit set
      have grows : 2 ^ s ≤ 2 ^ k := Nat.pow_le_pow_right Nat.two_pos (not_lt.mp outside)
      omega
    refine ⟨k - i, by omega, ?_⟩
    rw [Nat.add_sub_cancel' above]
    exact set

end Sealloc.Library
