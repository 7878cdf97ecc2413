import Sealloc.Chunk
import Sealloc.Library.HeapTree
import Sealloc.Library.Links

/-! The free index of a chunk, one list of nodes for each level of its tree. -/

namespace Sealloc

open Library Chunk

/-- Arithmetic that is exact as long as the values fit in 16 bits. -/
structure Short.Lawful (sh : Short) : Prop where
  ofNat : ∀ n, n < 2 ^ 16 → sh.ofNat n = n
  sub : ∀ a b, b ≤ a → a < 2 ^ 16 → sh.sub a b = a - b

theorem Short.wrapping_lawful : Short.wrapping.Lawful where
  ofNat n small := u16_eq small
  sub a b le small := by
    unfold Short.wrapping u16
    simp only
    omega

@[simp] theorem Short.unbounded_ofNat (n : Nat) : Short.unbounded.ofNat n = n := rfl

@[simp] theorem Short.unbounded_sub (a b : Nat) : Short.unbounded.sub a b = a - b := rfl

namespace Chunk

/-- Node `idx` is on level `d`. -/
def InLevel (d idx : Nat) : Prop := 2 ^ d ≤ idx ∧ idx < 2 ^ (d + 1)

def nextOf (mem : Nat → JumpNode) (idx : Nat) : Nat := (getJtItem mem idx).next

def prevOf (mem : Nat → JumpNode) (idx : Nat) : Nat := (getJtItem mem idx).prev

theorem InLevel.positive {d idx : Nat} (level : InLevel d idx) : 0 < idx :=
  (Nat.two_pow_pos d).trans_le level.1

theorem InLevel.unique {d e idx : Nat} (one : InLevel d idx) (two : InLevel e idx) : d = e := by
  have low : 2 ^ d < 2 ^ (e + 1) := one.1.trans_lt two.2
  have high : 2 ^ e < 2 ^ (d + 1) := two.1.trans_lt one.2
  have le := (Nat.pow_lt_pow_iff_right (by decide : 1 < 2)).mp low
  have ge := (Nat.pow_lt_pow_iff_right (by decide : 1 < 2)).mp high
  omega

theorem InLevel.parent {d idx : Nat} (level : InLevel (d + 1) idx) : InLevel d (idx / 2) := by
  obtain ⟨low, high⟩ := level
  rw [Nat.pow_succ] at low high
  exact ⟨by omega, by omega⟩

theorem InLevel.small {d idx : Nat} (level : InLevel d idx) (deep : d ≤ 11) : idx < 4096 :=
  level.2.trans_le (Nat.pow_le_pow_right (by decide) (show d + 1 ≤ 12 by omega))

section Items

variable {sh : Short} {mem : Nat → JumpNode} {i j v : Nat}

theorem nextOf_setNext (hi : 0 < i) (hj : 0 < j) :
    nextOf (setJtItemNext sh mem j v) i = if i = j then sh.ofNat v else nextOf mem i := by
  unfold nextOf getJtItem setJtItemNext
  by_cases same : i = j
  · simp [same]
  · rw [if_neg same, Function.update_of_ne (by omega)]

theorem prevOf_setNext : prevOf (setJtItemNext sh mem j v) i = prevOf mem i := by
  unfold prevOf getJtItem setJtItemNext
  by_cases same : i - 1 = j - 1
  · simp [same]
  · rw [Function.update_of_ne same]

theorem prevOf_setPrev (hi : 0 < i) (hj : 0 < j) :
    prevOf (setJtItemPrev sh mem j v) i = if i = j then sh.ofNat v else prevOf mem i := by
  unfold prevOf getJtItem setJtItemPrev
  by_cases same : i = j
  · simp [same]
  · rw [if_neg same, Function.update_of_ne (by omega)]

theorem nextOf_setPrev : nextOf (setJtItemPrev sh mem j v) i = nextOf mem i := by
  unfold nextOf getJtItem setJtItemPrev
  by_cases same : i - 1 = j - 1
  · simp [same]
  · rw [Function.update_of_ne same]

theorem incrNext_eq : incrJtItemNext sh mem j v =
    setJtItemNext sh mem j (nextOf mem j + sh.ofNat v) := rfl

theorem incrPrev_eq : incrJtItemPrev sh mem j v =
    setJtItemPrev sh mem j (prevOf mem j + sh.ofNat v) := rfl

end Items

/-- The list of level `d` holds the nodes in `A`, and the other nodes carry no offsets. -/
structure LevelOk (ck : Chunk) (d : Nat) (A : Nat → Prop) : Prop where
  within : ∀ i, A i → InLevel d i
  linked : Linked A (nextOf ck.jumpTree) (prevOf ck.jumpTree) (ck.jumpTreeFirstIndex d)
  off : ∀ i, InLevel d i → ¬ A i → nextOf ck.jumpTree i = 0 ∧ prevOf ck.jumpTree i = 0
  count : ck.availNodesCount d = Set.ncard {i | A i}

/-- The root is on no list. -/
structure RootOff (ck : Chunk) : Prop where
  next : nextOf ck.jumpTree 1 = 0
  prev : prevOf ck.jumpTree 1 = 0
  first : ck.jumpTreeFirstIndex 0 = 0

section Level

variable {ck ck' : Chunk} {d i a b : Nat} {A : Nat → Prop}

theorem LevelOk.congr {B : Nat → Prop} (ok : LevelOk ck d A) (same : ∀ i, B i ↔ A i)
    (items : ∀ i, InLevel d i → getJtItem ck'.jumpTree i = getJtItem ck.jumpTree i)
    (first : ck'.jumpTreeFirstIndex d = ck.jumpTreeFirstIndex d)
    (count : ck'.availNodesCount d = ck.availNodesCount d) : LevelOk ck' d B := by
  have nexts : ∀ i, InLevel d i → nextOf ck'.jumpTree i = nextOf ck.jumpTree i := by
    intro i level
    unfold nextOf
    rw [items i level]
  have prevs : ∀ i, InLevel d i → prevOf ck'.jumpTree i = prevOf ck.jumpTree i := by
    intro i level
    unfold prevOf
    rw [items i level]
  refine ⟨?_, ?_, ?_, ?_⟩
  · intro i member
    exact ok.within i ((same i).mp member)
  · rw [first]
    exact ok.linked.congr same (fun i member => nexts i (ok.within i member))
      fun i member => prevs i (ok.within i member)
  · intro i level outside
    rw [nexts i level, prevs i level]
    exact ok.off i level fun member => outside ((same i).mpr member)
  · rw [count, ok.count]
    congr 1
    ext i
    exact (same i).symm

theorem LevelOk.finite (ok : LevelOk ck d A) : Set.Finite {i | A i} :=
  (Set.finite_lt_nat (2 ^ (d + 1))).subset fun i member => (ok.within i member).2

theorem LevelOk.count_pos (ok : LevelOk ck d A) (member : A i) : 0 < ck.availNodesCount d := by
  rw [ok.count, Set.ncard_pos ok.finite]
  exact ⟨i, member⟩

theorem LevelOk.count_le (ok : LevelOk ck d A) : ck.availNodesCount d ≤ 2 ^ d := by
  have range : {i | A i} ⊆ ↑(Finset.Ico (2 ^ d) (2 ^ (d + 1))) := by
    intro i member
    have level := ok.within i member
    exact Finset.mem_coe.mpr (Finset.mem_Ico.mpr ⟨level.1, level.2⟩)
  have small := Set.ncard_le_ncard range (Finset.finite_toSet _)
  rw [Set.ncard_coe_finset, Nat.card_Ico, Nat.pow_succ] at small
  rw [ok.count]
  omega

theorem LevelOk.count_zero (ok : LevelOk ck d A) :
    ck.availNodesCount d = 0 ↔ ∀ i, ¬ A i := by
  rw [ok.count, Set.ncard_eq_zero ok.finite]
  exact Set.eq_empty_iff_forall_notMem

/-- The values stored at a member stay in its level. -/
theorem LevelOk.next_cases (ok : LevelOk ck d A) (member : A i) :
    (nextOf ck.jumpTree i = 0 ∧ ∀ j, i < j → ¬ A j) ∨
      (0 < nextOf ck.jumpTree i ∧ IsNext A i (i + nextOf ck.jumpTree i) ∧
        InLevel d (i + nextOf ck.jumpTree i)) := by
  rcases ok.linked.next_cases member with last | ⟨positive, step⟩
  · exact Or.inl last
  · exact Or.inr ⟨positive, step, ok.within _ step.right⟩

theorem LevelOk.prev_cases (ok : LevelOk ck d A) (member : A i) :
    (prevOf ck.jumpTree i = 0 ∧ ∀ j, j < i → ¬ A j) ∨
      (0 < prevOf ck.jumpTree i ∧ prevOf ck.jumpTree i < i ∧
        IsNext A (i - prevOf ck.jumpTree i) i ∧ InLevel d (i - prevOf ck.jumpTree i)) := by
  rcases ok.linked.prev_cases member with first | ⟨positive, small, step⟩
  · exact Or.inl first
  · have level := ok.within _ step.left
    have := level.positive
    exact Or.inr ⟨positive, by omega, step, level⟩

/-- The number of members left when a block is gone. -/
theorem ncard_remove (block : ∀ i, a ≤ i → i ≤ b → A i) :
    Set.ncard {i | A i ∧ ¬ (a ≤ i ∧ i ≤ b)} = Set.ncard {i | A i} - (b + 1 - a) := by
  have split : {i | A i ∧ ¬ (a ≤ i ∧ i ≤ b)} = {i | A i} \ ↑(Finset.Icc a b) := by
    ext i
    simp
  have inside : ↑(Finset.Icc a b) ⊆ {i | A i} := by
    intro i member
    have bounds := Finset.mem_Icc.mp (Finset.mem_coe.mp member)
    exact block i bounds.1 bounds.2
  rw [split, Set.ncard_sdiff inside (Finset.finite_toSet _), Set.ncard_coe_finset, Nat.card_Icc]

end Level

end Chunk

end Sealloc
