import Mathlib.Tactic

/-! Doubly linked lists over a set of numbers, stored as offsets.

Each member of the set carries the distance to the next and to the previous member, and
0 where there is none. -/

namespace Sealloc.Library

/-- `j` is the first member after the member `i`. -/
structure IsNext (A : Nat → Prop) (i j : Nat) : Prop where
  left : A i
  right : A j
  lt : i < j
  between : ∀ k, i < k → k < j → ¬ A k

structure Linked (A : Nat → Prop) (next prev : Nat → Nat) (first : Nat) : Prop where
  next_eq : ∀ {i j}, IsNext A i j → i + next i = j
  next_last : ∀ {i}, A i → (∀ j, i < j → ¬ A j) → next i = 0
  prev_eq : ∀ {i j}, IsNext A i j → i + prev j = j
  prev_first : ∀ {j}, A j → (∀ i, i < j → ¬ A i) → prev j = 0
  first_eq : ∀ {i}, A i → (∀ j, j < i → ¬ A j) → first = i
  first_none : (∀ i, ¬ A i) → first = 0

section Neighbours

variable {A : Nat → Prop} {i j k : Nat}

theorem exists_next (member : A i) (later : ∃ j, i < j ∧ A j) : ∃ j, IsNext A i j := by
  classical
  have least := Nat.find_spec later
  refine ⟨Nat.find later, member, least.2, least.1, ?_⟩
  intro k low high inside
  exact Nat.find_min later high ⟨low, inside⟩

theorem exists_prev (member : A j) (earlier : ∃ i, i < j ∧ A i) : ∃ i, IsNext A i j := by
  classical
  have distance : ∃ d, 0 < d ∧ d ≤ j ∧ A (j - d) := by
    obtain ⟨i, low, inside⟩ := earlier
    refine ⟨j - i, by omega, by omega, ?_⟩
    rwa [Nat.sub_sub_self (by omega)]
  obtain ⟨positive, small, inside⟩ := Nat.find_spec distance
  refine ⟨j - Nat.find distance, inside, member, by omega, ?_⟩
  intro k low high other
  refine Nat.find_min distance (m := j - k) (by omega) ⟨by omega, by omega, ?_⟩
  rwa [Nat.sub_sub_self (by omega)]

theorem exists_first (member : A i) : ∃ j, A j ∧ ∀ k, k < j → ¬ A k := by
  classical
  have some : ∃ j, A j := ⟨i, member⟩
  exact ⟨Nat.find some, Nat.find_spec some, fun k less => Nat.find_min some less⟩

/-- The members from the last one on. -/
theorem from_last (member : A i) (last : ∀ j, i < j → ¬ A j) : (A j ∧ i ≤ j) ↔ j = i := by
  constructor
  · rintro ⟨inside, low⟩
    by_contra different
    exact last j (by omega) inside
  · rintro rfl
    exact ⟨member, Nat.le_refl _⟩

/-- The members from one on are that one and those from the next on. -/
theorem IsNext.from_left (step : IsNext A i k) : (A j ∧ i ≤ j) ↔ j = i ∨ (A j ∧ k ≤ j) := by
  have lt := step.lt
  constructor
  · rintro ⟨inside, low⟩
    by_cases same : j = i
    · exact Or.inl same
    · right
      refine ⟨inside, ?_⟩
      by_contra short
      exact step.between j (by omega) (by omega) inside
  · rintro (rfl | ⟨inside, low⟩)
    · exact ⟨step.left, Nat.le_refl _⟩
    · exact ⟨inside, by omega⟩

theorem IsNext.unique_right (one : IsNext A i j) (two : IsNext A i k) : j = k := by
  rcases Nat.lt_trichotomy j k with less | same | more
  · exact absurd one.right (two.between j one.lt less)
  · exact same
  · exact absurd two.right (one.between k two.lt more)

theorem IsNext.unique_left (one : IsNext A i k) (two : IsNext A j k) : i = j := by
  rcases Nat.lt_trichotomy i j with less | same | more
  · exact absurd two.left (one.between j less two.lt)
  · exact same
  · exact absurd one.left (two.between i more one.lt)

end Neighbours

namespace Linked

variable {A : Nat → Prop} {next prev next' prev' : Nat → Nat} {first first' i j a b : Nat}

theorem next_cases (linked : Linked A next prev first) (member : A i) :
    (next i = 0 ∧ ∀ j, i < j → ¬ A j) ∨ (0 < next i ∧ IsNext A i (i + next i)) := by
  by_cases later : ∃ j, i < j ∧ A j
  · right
    obtain ⟨j, step⟩ := exists_next member later
    have reach := linked.next_eq step
    have lt := step.lt
    rw [reach]
    exact ⟨by omega, step⟩
  · left
    have none : ∀ j, i < j → ¬ A j := fun j less inside => later ⟨j, less, inside⟩
    exact ⟨linked.next_last member none, none⟩

theorem prev_cases (linked : Linked A next prev first) (member : A j) :
    (prev j = 0 ∧ ∀ i, i < j → ¬ A i) ∨
      (0 < prev j ∧ prev j ≤ j ∧ IsNext A (j - prev j) j) := by
  by_cases earlier : ∃ i, i < j ∧ A i
  · right
    obtain ⟨i, step⟩ := exists_prev member earlier
    have reach := linked.prev_eq step
    have lt := step.lt
    have back : j - prev j = i := by omega
    rw [back]
    exact ⟨by omega, by omega, step⟩
  · left
    have none : ∀ i, i < j → ¬ A i := fun i less inside => earlier ⟨i, less, inside⟩
    exact ⟨linked.prev_first member none, none⟩

/-- The list only depends on the set, and on the offsets at its members. -/
theorem congr {B : Nat → Prop} (linked : Linked A next prev first) (same : ∀ i, B i ↔ A i)
    (nexts : ∀ i, A i → next' i = next i) (prevs : ∀ i, A i → prev' i = prev i) :
    Linked B next' prev' first := by
  have sets : B = A := funext fun i => propext (same i)
  subst sets
  constructor
  · intro i j step
    rw [nexts i step.left]
    exact linked.next_eq step
  · intro i member none
    rw [nexts i member]
    exact linked.next_last member none
  · intro i j step
    rw [prevs j step.right]
    exact linked.prev_eq step
  · intro j member none
    rw [prevs j member]
    exact linked.prev_first member none
  · exact linked.first_eq
  · exact linked.first_none

/-- Members without neighbours stand alone. -/
theorem member_iff (linked : Linked A next prev first) (off : ¬ A i → next i = 0 ∧ prev i = 0)
    (positive : 0 < i) :
    ((next i ≠ 0 ∨ prev i ≠ 0) ∨ first = i) ↔ A i := by
  constructor
  · rintro (neighbour | start)
    · by_contra outside
      have both := off outside
      omega
    · by_contra outside
      by_cases empty : ∀ j, ¬ A j
      · have := linked.first_none empty
        omega
      · push Not at empty
        obtain ⟨j, member⟩ := empty
        obtain ⟨k, least, below⟩ := exists_first member
        rw [← linked.first_eq least below, start] at least
        exact outside least
  · intro member
    rcases linked.prev_cases member with ⟨noPrev, least⟩ | ⟨somePrev, -⟩
    · exact Or.inr (linked.first_eq member least)
    · exact Or.inl (Or.inr (by omega))

/-- Two members that follow each other once a block is gone followed each other before, or
stand on the two sides of the block. -/
theorem next_around (order : a ≤ b) (block : ∀ k, a ≤ k → k ≤ b → A k)
    (step : IsNext (fun k => A k ∧ ¬ (a ≤ k ∧ k ≤ b)) i j) :
    IsNext A i j ∨ (IsNext A i a ∧ IsNext A b j) := by
  have left := step.left.2
  have right := step.right.2
  have lt := step.lt
  by_cases around : i < a ∧ b < j
  · right
    constructor
    · refine ⟨step.left.1, block a (Nat.le_refl a) order, around.1, ?_⟩
      intro k low high inside
      exact step.between k low (by omega) ⟨inside, by omega⟩
    · refine ⟨block b order (Nat.le_refl b), step.right.1, around.2, ?_⟩
      intro k low high inside
      exact step.between k (by omega) high ⟨inside, by omega⟩
  · left
    refine ⟨step.left.1, step.right.1, step.lt, ?_⟩
    intro k low high inside
    refine step.between k low high ⟨inside, ?_⟩
    omega

/-- A member that has become the last one, and was not, is the one before the block. -/
theorem last_around (linked : Linked A next prev first) (order : a ≤ b)
    (block : ∀ k, a ≤ k → k ≤ b → A k) (outside : A i ∧ ¬ (a ≤ i ∧ i ≤ b))
    (none : ∀ j, i < j → ¬ (A j ∧ ¬ (a ≤ j ∧ j ≤ b))) (later : ∃ j, i < j ∧ A j) :
    IsNext A i a ∧ next b = 0 := by
  obtain ⟨j, less, member⟩ := later
  have inBlock : a ≤ j ∧ j ≤ b := by
    by_contra far
    exact none j less ⟨member, far⟩
  have beforeA : i < a := by
    have := outside.2
    omega
  constructor
  · refine ⟨outside.1, block a (Nat.le_refl a) order, beforeA, ?_⟩
    intro k low high inside
    exact none k low ⟨inside, by omega⟩
  · rcases linked.next_cases (block b order (Nat.le_refl b)) with ⟨zero, -⟩ | ⟨positive, old⟩
    · exact zero
    · exact absurd ⟨old.right, by omega⟩ (none _ (by omega))

/-- A member that has become the first one, and was not, is the one after the block. -/
theorem first_around (linked : Linked A next prev first) (order : a ≤ b)
    (block : ∀ k, a ≤ k → k ≤ b → A k) (outside : A j ∧ ¬ (a ≤ j ∧ j ≤ b))
    (none : ∀ i, i < j → ¬ (A i ∧ ¬ (a ≤ i ∧ i ≤ b))) (earlier : ∃ i, i < j ∧ A i) :
    IsNext A b j ∧ prev a = 0 := by
  obtain ⟨i, less, member⟩ := earlier
  have inBlock : a ≤ i ∧ i ≤ b := by
    by_contra far
    exact none i less ⟨member, far⟩
  have afterB : b < j := by
    have := outside.2
    omega
  constructor
  · refine ⟨block b order (Nat.le_refl b), outside.1, afterB, ?_⟩
    intro k low high inside
    exact none k high ⟨inside, by omega⟩
  · rcases linked.prev_cases (block a (Nat.le_refl a) order) with ⟨zero, -⟩ | ⟨positive, small, old⟩
    · exact zero
    · exact absurd ⟨old.left, by omega⟩ (none (a - prev a) (by omega))

/-- Taking a block of consecutive members out of the list. -/
theorem remove (linked : Linked A next prev first) (order : a ≤ b)
    (block : ∀ k, a ≤ k → k ≤ b → A k)
    (newFirst : first' = if prev a = 0 then (if next b = 0 then 0 else b + next b) else first)
    (newNext : ∀ i, A i → ¬ (a ≤ i ∧ i ≤ b) → next' i =
      if 0 < prev a ∧ i + prev a = a then
        (if next b = 0 then 0 else next i + (b - a) + next b)
      else next i)
    (newPrev : ∀ i, A i → ¬ (a ≤ i ∧ i ≤ b) → prev' i =
      if 0 < next b ∧ i = b + next b then
        (if prev a = 0 then 0 else prev i + (b - a) + prev a)
      else prev i) :
    Linked (fun k => A k ∧ ¬ (a ≤ k ∧ k ≤ b)) next' prev' first' := by
  have inA : A a := block a (Nat.le_refl a) order
  have inB : A b := block b order (Nat.le_refl b)
  have before := linked.prev_cases inA
  have after := linked.next_cases inB
  constructor
  · intro i j step
    have outside := step.left
    have right := step.right.2
    rw [newNext i outside.1 outside.2]
    rcases next_around order block step with old | ⟨toBlock, fromBlock⟩
    · rw [if_neg, linked.next_eq old]
      rintro ⟨positive, reach⟩
      rcases before with ⟨zero, -⟩ | ⟨-, -, old'⟩
      · omega
      · rw [show a - prev a = i by omega] at old'
        have := old.unique_right old'
        omega
    · have toA := linked.prev_eq toBlock
      have fromA := linked.next_eq toBlock
      have fromB := linked.next_eq fromBlock
      have low := toBlock.lt
      have high := fromBlock.lt
      rw [if_pos ⟨by omega, by omega⟩, if_neg (by omega)]
      omega
  · intro i outside none
    rw [newNext i outside.1 outside.2]
    by_cases later : ∃ j, i < j ∧ A j
    · rcases linked.last_around order block outside none later with ⟨step, last⟩
      have reach := linked.prev_eq step
      have low := step.lt
      rw [if_pos ⟨by omega, by omega⟩, if_pos last]
    · have last : ∀ j, i < j → ¬ A j := fun j less inside => later ⟨j, less, inside⟩
      rw [if_neg, linked.next_last outside.1 last]
      rintro ⟨positive, reach⟩
      exact last a (by omega) inA
  · intro i j step
    have outside := step.right
    have left := step.left.2
    rw [newPrev j outside.1 outside.2]
    rcases next_around order block step with old | ⟨toBlock, fromBlock⟩
    · rw [if_neg, linked.prev_eq old]
      rintro ⟨positive, reach⟩
      rcases after with ⟨zero, -⟩ | ⟨-, old'⟩
      · omega
      · rw [← reach] at old'
        have := old.unique_left old'
        omega
    · have toA := linked.prev_eq toBlock
      have fromB := linked.next_eq fromBlock
      have backB := linked.prev_eq fromBlock
      have low := toBlock.lt
      have high := fromBlock.lt
      rw [if_pos ⟨by omega, by omega⟩, if_neg (by omega)]
      omega
  · intro j outside none
    rw [newPrev j outside.1 outside.2]
    by_cases earlier : ∃ i, i < j ∧ A i
    · rcases linked.first_around order block outside none earlier with ⟨step, first⟩
      have reach := linked.next_eq step
      have high := step.lt
      rw [if_pos ⟨by omega, by omega⟩, if_pos first]
    · have least : ∀ i, i < j → ¬ A i := fun i less inside => earlier ⟨i, less, inside⟩
      rw [if_neg, linked.prev_first outside.1 least]
      rintro ⟨positive, reach⟩
      exact least b (by omega) inB
  · intro i outside none
    rw [newFirst]
    by_cases earlier : ∃ j, j < i ∧ A j
    · rcases linked.first_around order block outside none earlier with ⟨step, first⟩
      have reach := linked.next_eq step
      have high := step.lt
      rw [if_pos first, if_neg (by omega), reach]
    · have least : ∀ j, j < i → ¬ A j := fun j less inside => earlier ⟨j, less, inside⟩
      have somePrev : prev a ≠ 0 := by
        intro zero
        rcases before with ⟨-, leastA⟩ | ⟨positive, -⟩
        · have beforeA : ¬ i < a := fun less => leastA i less outside.1
          have afterA : ¬ a < i := fun less => least a less inA
          exact outside.2 ⟨by omega, by omega⟩
        · omega
      rw [if_neg somePrev, linked.first_eq outside.1 least]
  · intro none
    have noPrev : prev a = 0 := by
      rcases before with ⟨zero, -⟩ | ⟨positive, small, old⟩
      · exact zero
      · exact absurd ⟨old.left, by omega⟩ (none (a - prev a))
    have noNext : next b = 0 := by
      rcases after with ⟨zero, -⟩ | ⟨positive, old⟩
      · exact zero
      · exact absurd ⟨old.right, by omega⟩ (none (b + next b))
    rw [newFirst, if_pos noPrev, if_pos noNext]

/-- From a member on, the offsets list the members in increasing order. -/
theorem listing_from (linked : Linked A next prev first) (n : Nat) :
    ∀ i, A i → (∀ j, A j → j < i + n) → ∃ rest : List Nat,
      (∀ j, j ∈ i :: rest ↔ A j ∧ i ≤ j) ∧ (i :: rest).Pairwise (· < ·) ∧
      (i :: rest).IsChain (fun j k => j + next j = k ∧ j + prev k = k) ∧
      next ((i :: rest).getLast (by simp)) = 0 := by
  induction n with
  | zero =>
      intro i member bound
      exact absurd (bound i member) (by omega)
  | succ n ih =>
      intro i member bound
      rcases linked.next_cases member with ⟨zero, last⟩ | ⟨positive, step⟩
      · refine ⟨[], ?_, by simp, by simp, by simpa using zero⟩
        intro j
        rw [List.mem_singleton, from_last member last]
      · obtain ⟨rest, members, sorted, chain, final⟩ :=
          ih (i + next i) step.right fun j inside => by
            have := bound j inside
            omega
        refine ⟨(i + next i) :: rest, ?_, ?_, ?_, ?_⟩
        · intro j
          rw [List.mem_cons, members j, step.from_left]
        · refine List.pairwise_cons.mpr ⟨?_, sorted⟩
          intro j inRest
          have := (members j).mp inRest
          omega
        · exact List.isChain_cons_cons.mpr ⟨⟨rfl, linked.prev_eq step⟩, chain⟩
        · simpa using final

/-- The offset walk reaches only members while it makes fewer steps than there are. -/
theorem walk_member (linked : Linked A next prev first) {hi : Nat} (bound : ∀ j, A j → j < hi)
    {walk : Nat → Nat → Nat} (start : ∀ i, walk 0 i = i)
    (onward : ∀ k i, walk (k + 1) i = walk k (i + next i)) (steps : Nat) :
    ∀ i, A i → steps < Set.ncard {j | A j ∧ i ≤ j} → A (walk steps i) := by
  induction steps with
  | zero =>
      intro i member enough
      rwa [start]
  | succ steps ih =>
      intro i member enough
      have finite : Set.Finite {j | A j ∧ i ≤ j} :=
        (Set.finite_lt_nat hi).subset fun j inside => bound j inside.1
      rw [onward]
      rcases linked.next_cases member with ⟨zero, last⟩ | ⟨positive, step⟩
      · have single : {j | A j ∧ i ≤ j} = {i} := by
          ext j
          exact from_last member last
        rw [single, Set.ncard_singleton] at enough
        omega
      · refine ih _ step.right ?_
        have split : {j | A j ∧ i ≤ j} = insert i {j | A j ∧ i + next i ≤ j} := by
          ext j
          exact step.from_left
        have fewer : Set.ncard {j | A j ∧ i ≤ j} ≤
            Set.ncard {j | A j ∧ i + next i ≤ j} + 1 := by
          rw [split]
          exact Set.ncard_insert_le _ _
        omega

end Linked

end Sealloc.Library
