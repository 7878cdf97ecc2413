import Mathlib.Tactic

/-! Complete binary trees whose nodes are numbered from 1, the children of `i`
being `2 * i` and `2 * i + 1`. -/

namespace Sealloc.Library

/-- `j` is `top` or one of its descendants. -/
def Below (top j : Nat) : Prop := ∃ depth, j / 2 ^ depth = top

theorem below_refl (top : Nat) : Below top top := ⟨0, by simp⟩

theorem below_le {top j : Nat} (below : Below top j) : top ≤ j := by
  obtain ⟨depth, rfl⟩ := below
  exact Nat.div_le_self _ _

theorem below_one {j : Nat} (positive : 0 < j) : Below 1 j := by
  refine ⟨Nat.log2 j, ?_⟩
  have low := Nat.log2_self_le (Nat.ne_of_gt positive)
  have high := @Nat.lt_log2_self j
  apply Nat.div_eq_of_lt_le
  · omega
  · rw [Nat.pow_succ] at high
    omega

theorem below_parent {top j : Nat} (below : Below top j) : Below (top / 2) j := by
  obtain ⟨depth, rfl⟩ := below
  exact ⟨depth + 1, by rw [Nat.pow_succ, Nat.div_div_eq_div_mul]⟩

theorem below_trans {top middle j : Nat} (high : Below top middle) (low : Below middle j) :
    Below top j := by
  obtain ⟨d, rfl⟩ := high
  obtain ⟨e, rfl⟩ := low
  exact ⟨e + d, by rw [Nat.pow_add, Nat.div_div_eq_div_mul]⟩

theorem below_left {top j : Nat} (below : Below (top * 2) j) : Below top j := by
  have up := below_parent below
  rwa [Nat.mul_div_cancel _ (by decide)] at up

theorem below_right {top j : Nat} (below : Below (top * 2 + 1) j) : Below top j := by
  have up := below_parent below
  rwa [show (top * 2 + 1) / 2 = top by omega] at up

/-- Two nodes above a common node are comparable. -/
theorem below_linear {first second j : Nat} (one : Below first j) (two : Below second j) :
    Below first second ∨ Below second first := by
  obtain ⟨d, rfl⟩ := one
  obtain ⟨e, rfl⟩ := two
  rcases Nat.le_total d e with order | order
  · right
    refine ⟨e - d, ?_⟩
    rw [Nat.div_div_eq_div_mul, ← Nat.pow_add, Nat.add_sub_cancel' order]
  · left
    refine ⟨d - e, ?_⟩
    rw [Nat.div_div_eq_div_mul, ← Nat.pow_add, Nat.add_sub_cancel' order]

/-- The children of a node have no descendant in common. -/
theorem below_children_apart {top j : Nat} (positive : 0 < top) (left : Below (top * 2) j)
    (right : Below (top * 2 + 1) j) : False := by
  rcases below_linear left right with order | order
  · obtain ⟨depth, up⟩ := order
    cases depth with
    | zero => simp at up
    | succ depth =>
        have small : (top * 2 + 1) / 2 / 2 ^ depth ≤ (top * 2 + 1) / 2 := Nat.div_le_self _ _
        rw [Nat.div_div_eq_div_mul, ← Nat.pow_succ', up] at small
        omega
  · have := below_le order
    omega

theorem below_cases {top j : Nat} (below : Below top j) :
    j = top ∨ Below (top * 2) j ∨ Below (top * 2 + 1) j := by
  obtain ⟨depth, up⟩ := below
  cases depth with
  | zero => left; simpa using up
  | succ depth =>
      right
      rw [Nat.pow_succ, ← Nat.div_div_eq_div_mul] at up
      rcases Nat.mod_two_eq_zero_or_one (j / 2 ^ depth) with even | odd
      · left
        exact ⟨depth, by omega⟩
      · right
        exact ⟨depth, by omega⟩

end Sealloc.Library
