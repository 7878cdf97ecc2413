import Sealloc.Chunk.Levels

/-! Taking nodes out of the lists of a chunk's free index, one level at a time. -/

namespace Sealloc

open Library

namespace Chunk

section Short

variable {sh : Short} {t : Nat → JumpNode} {j v : Nat}

theorem setNext_short (same : sh.ofNat v = v) :
    setJtItemNext sh t j v = setJtItemNext .unbounded t j v := by
  simp [setJtItemNext, same, Short.unbounded]

theorem setPrev_short (same : sh.ofNat v = v) :
    setJtItemPrev sh t j v = setJtItemPrev .unbounded t j v := by
  simp [setJtItemPrev, same, Short.unbounded]

theorem incrNext_short (lawful : sh.Lawful) (small : nextOf t j + v < 2 ^ 16) :
    incrJtItemNext sh t j v = incrJtItemNext .unbounded t j v := by
  have value := lawful.ofNat v (by omega)
  have total := lawful.ofNat (nextOf t j + v) small
  rw [incrNext_eq, incrNext_eq, value]
  exact setNext_short total

theorem incrPrev_short (lawful : sh.Lawful) (small : prevOf t j + v < 2 ^ 16) :
    incrJtItemPrev sh t j v = incrJtItemPrev .unbounded t j v := by
  have value := lawful.ofNat v (by omega)
  have total := lawful.ofNat (prevOf t j + v) small
  rw [incrPrev_eq, incrPrev_eq, value]
  exact setPrev_short total

end Short

section Node

variable {sh : Short} {ck : Chunk} {d idx : Nat} {A : Nat → Prop}

/-- The offsets at the neighbours of a member reach it. -/
theorem LevelOk.next_of_prev (ok : LevelOk ck d A) (member : A idx)
    (some : 0 < prevOf ck.jumpTree idx) :
    nextOf ck.jumpTree (idx - prevOf ck.jumpTree idx) = prevOf ck.jumpTree idx := by
  rcases ok.prev_cases member with ⟨zero, -⟩ | ⟨-, small, step, -⟩
  · omega
  · have reach := ok.linked.next_eq step
    omega

theorem LevelOk.prev_of_next (ok : LevelOk ck d A) (member : A idx)
    (some : 0 < nextOf ck.jumpTree idx) :
    prevOf ck.jumpTree (idx + nextOf ck.jumpTree idx) = nextOf ck.jumpTree idx := by
  rcases ok.next_cases member with ⟨zero, -⟩ | ⟨-, step, -⟩
  · omega
  · have reach := ok.linked.prev_eq step
    omega

theorem unlinkNode_short (lawful : sh.Lawful) (deep : d ≤ 11) (ok : LevelOk ck d A)
    (member : A idx) :
    unlinkNode sh ck (getJtItem ck.jumpTree idx) idx d =
      unlinkNode .unbounded ck (getJtItem ck.jumpTree idx) idx d := by
  have zero : sh.ofNat 0 = 0 := lawful.ofNat 0 (by decide)
  have some := ok.count_pos member
  have few := ok.count_le
  have width : 2 ^ d ≤ 2 ^ 11 := Nat.pow_le_pow_right (by decide) deep
  have counted : sh.sub (ck.availNodesCount d) 1 = ck.availNodesCount d - 1 :=
    lawful.sub _ _ some (by omega)
  have idxSmall := (ok.within idx member).small deep
  have nextDef : (getJtItem ck.jumpTree idx).next = nextOf ck.jumpTree idx := rfl
  have prevDef : (getJtItem ck.jumpTree idx).prev = prevOf ck.jumpTree idx := rfl
  simp only [unlinkNode, nextDef, prevDef]
  by_cases noNext : nextOf ck.jumpTree idx = 0
  · simp only [if_pos noNext, counted, setNext_short zero, setPrev_short zero,
      Short.unbounded_sub]
  · rcases ok.next_cases member with ⟨none, -⟩ | ⟨positive, step, level⟩
    · exact absurd none noNext
    · have nextSmall := level.small deep
      by_cases noPrev : prevOf ck.jumpTree idx = 0
      · simp only [if_neg noNext, if_pos noPrev, counted, setNext_short zero,
          setPrev_short zero, Short.unbounded_sub]
      · have prevNext := ok.next_of_prev member (by omega)
        have nextPrev := ok.prev_of_next member positive
        have prevSmall : prevOf ck.jumpTree idx < idx := by
          rcases ok.prev_cases member with ⟨none, -⟩ | ⟨-, small, -⟩
          · exact absurd none noPrev
          · exact small
        have one := incrNext_short (t := ck.jumpTree)
          (j := idx - prevOf ck.jumpTree idx) (v := nextOf ck.jumpTree idx) lawful (by omega)
        have two := incrPrev_short (t := incrJtItemNext .unbounded ck.jumpTree
            (idx - prevOf ck.jumpTree idx) (nextOf ck.jumpTree idx))
          (j := idx + nextOf ck.jumpTree idx) (v := prevOf ck.jumpTree idx) lawful (by
            rw [incrNext_eq, prevOf_setNext]
            omega)
        simp only [if_neg noNext, if_neg noPrev, counted, setNext_short zero,
          setPrev_short zero, one, two, Short.unbounded_sub]

/-- What one round of the loop up the tree leaves in the jump tree. -/
theorem unlinkNode_items (ok : LevelOk ck d A) (member : A idx) {i : Nat} (positive : 0 < i) :
    nextOf (unlinkNode .unbounded ck (getJtItem ck.jumpTree idx) idx d).jumpTree i =
      (if i = idx then 0
      else if 0 < prevOf ck.jumpTree idx ∧ i + prevOf ck.jumpTree idx = idx then
        (if nextOf ck.jumpTree idx = 0 then 0
        else nextOf ck.jumpTree i + nextOf ck.jumpTree idx)
      else nextOf ck.jumpTree i) ∧
    prevOf (unlinkNode .unbounded ck (getJtItem ck.jumpTree idx) idx d).jumpTree i =
      (if i = idx then 0
      else if 0 < nextOf ck.jumpTree idx ∧ i = idx + nextOf ck.jumpTree idx then
        (if prevOf ck.jumpTree idx = 0 then 0
        else prevOf ck.jumpTree i + prevOf ck.jumpTree idx)
      else prevOf ck.jumpTree i) := by
  have nextDef : (getJtItem ck.jumpTree idx).next = nextOf ck.jumpTree idx := rfl
  have prevDef : (getJtItem ck.jumpTree idx).prev = prevOf ck.jumpTree idx := rfl
  have idxPositive := (ok.within idx member).positive
  have before : 0 < idx - prevOf ck.jumpTree idx := by
    rcases ok.prev_cases member with ⟨none, -⟩ | ⟨-, small, -⟩ <;> omega
  have after : 0 < idx + nextOf ck.jumpTree idx := by omega
  simp only [unlinkNode, nextDef, prevDef]
  by_cases noNext : nextOf ck.jumpTree idx = 0
  · simp only [if_pos noNext, nextOf_setPrev, prevOf_setNext, nextOf_setNext positive idxPositive,
      nextOf_setNext positive before, prevOf_setPrev positive idxPositive,
      Short.unbounded_ofNat]
    constructor
    · by_cases same : i = idx
      · simp [same]
      · rw [if_neg same, if_neg same]
        by_cases reach : i = idx - prevOf ck.jumpTree idx
        · rw [if_pos reach, if_pos (by omega)]
        · rw [if_neg reach, if_neg (by omega)]
    · by_cases same : i = idx
      · simp [same]
      · simp [same, noNext]
  · by_cases noPrev : prevOf ck.jumpTree idx = 0
    · simp only [if_neg noNext, if_pos noPrev, nextOf_setPrev, prevOf_setNext,
        nextOf_setNext positive idxPositive, prevOf_setPrev positive idxPositive,
        prevOf_setPrev positive after, Short.unbounded_ofNat]
      constructor
      · simp [noPrev]
      · by_cases reach : i = idx + nextOf ck.jumpTree idx
        · have different : i ≠ idx := by omega
          rw [if_neg different, if_pos reach, if_neg different, if_pos ⟨by omega, reach⟩]
        · simp [reach]
    · simp only [if_neg noNext, if_neg noPrev, incrNext_eq, incrPrev_eq, nextOf_setPrev,
        prevOf_setNext, nextOf_setNext positive idxPositive, nextOf_setNext positive before,
        prevOf_setPrev positive idxPositive, prevOf_setPrev positive after,
        Short.unbounded_ofNat]
      constructor
      · by_cases same : i = idx
        · simp [same]
        · rw [if_neg same, if_neg same]
          by_cases reach : i = idx - prevOf ck.jumpTree idx
          · rw [if_pos reach, if_pos (by omega), reach]
          · rw [if_neg reach, if_neg (by omega)]
      · by_cases same : i = idx
        · simp [same]
        · rw [if_neg same, if_neg same]
          by_cases reach : i = idx + nextOf ck.jumpTree idx
          · rw [if_pos reach, if_pos (by omega), reach]
          · rw [if_neg reach, if_neg (by omega)]

end Node

/-- Only the lists of the levels in `P` differ between two chunks. -/
structure Touches (P : Nat → Prop) (ck ck' : Chunk) : Prop where
  items : ∀ d i, ¬ P d → InLevel d i → getJtItem ck'.jumpTree i = getJtItem ck.jumpTree i
  first : ∀ d, ¬ P d → ck'.jumpTreeFirstIndex d = ck.jumpTreeFirstIndex d
  count : ∀ d, ¬ P d → ck'.availNodesCount d = ck.availNodesCount d
  key : ck'.key = ck.key
  sizes : ck'.regSizeSmallMedium = ck.regSizeSmallMedium
  tree : ck'.buddyTree = ck.buddyTree

section Touches

variable {P Q : Nat → Prop} {ck ck' ck'' : Chunk}

theorem Touches.refl (ck : Chunk) : Touches P ck ck :=
  ⟨fun _ _ _ _ => rfl, fun _ _ => rfl, fun _ _ => rfl, rfl, rfl, rfl⟩

theorem Touches.trans (one : Touches P ck ck') (two : Touches P ck' ck'') :
    Touches P ck ck'' where
  items d i other level := (two.items d i other level).trans (one.items d i other level)
  first d other := (two.first d other).trans (one.first d other)
  count d other := (two.count d other).trans (one.count d other)
  key := two.key.trans one.key
  sizes := two.sizes.trans one.sizes
  tree := two.tree.trans one.tree

theorem Touches.mono (touches : Touches P ck ck') (weaker : ∀ d, P d → Q d) :
    Touches Q ck ck' where
  items d i other level := touches.items d i (fun inside => other (weaker d inside)) level
  first d other := touches.first d fun inside => other (weaker d inside)
  count d other := touches.count d fun inside => other (weaker d inside)
  key := touches.key
  sizes := touches.sizes
  tree := touches.tree

theorem LevelOk.untouched {d : Nat} {A : Nat → Prop} (ok : LevelOk ck d A)
    (touches : Touches P ck ck') (other : ¬ P d) : LevelOk ck' d A :=
  ok.congr (fun _ => Iff.rfl) (fun i level => touches.items d i other level)
    (touches.first d other) (touches.count d other)

theorem RootOff.untouched (root : RootOff ck) (touches : Touches P ck ck') (other : ¬ P 0) :
    RootOff ck' := by
  have level : InLevel 0 1 := ⟨by decide, by decide⟩
  have same := touches.items 0 1 other level
  refine ⟨?_, ?_, ?_⟩
  · rw [nextOf, same]
    exact root.next
  · rw [prevOf, same]
    exact root.prev
  · rw [touches.first 0 other]
    exact root.first

end Touches

theorem jumpNode_eq {one two : JumpNode} (prevs : one.prev = two.prev)
    (nexts : one.next = two.next) : one = two := by
  cases one
  cases two
  simp_all

/-- The nodes from `a` to `b`, all in `A`, have been cut out of the list of level `d`; their
own offsets are arbitrary. -/
structure LevelCut (ck : Chunk) (d : Nat) (A : Nat → Prop) (a b : Nat) : Prop where
  linked : Linked (fun i => A i ∧ ¬ (a ≤ i ∧ i ≤ b)) (nextOf ck.jumpTree) (prevOf ck.jumpTree)
    (ck.jumpTreeFirstIndex d)
  off : ∀ i, InLevel d i → ¬ A i → nextOf ck.jumpTree i = 0 ∧ prevOf ck.jumpTree i = 0
  count : ck.availNodesCount d = Set.ncard {i | A i ∧ ¬ (a ≤ i ∧ i ≤ b)}

section Cut

variable {ck ck' : Chunk} {d a b : Nat} {A : Nat → Prop}

/-- The changes that both loops make to the list of one level. -/
structure CutsSpan (ck ck' : Chunk) (d a b : Nat) : Prop where
  nexts : ∀ i, 0 < i → ¬ (a ≤ i ∧ i ≤ b) → nextOf ck'.jumpTree i =
    if 0 < prevOf ck.jumpTree a ∧ i + prevOf ck.jumpTree a = a then
      (if nextOf ck.jumpTree b = 0 then 0
      else nextOf ck.jumpTree i + (b - a) + nextOf ck.jumpTree b)
    else nextOf ck.jumpTree i
  prevs : ∀ i, 0 < i → ¬ (a ≤ i ∧ i ≤ b) → prevOf ck'.jumpTree i =
    if 0 < nextOf ck.jumpTree b ∧ i = b + nextOf ck.jumpTree b then
      (if prevOf ck.jumpTree a = 0 then 0
      else prevOf ck.jumpTree i + (b - a) + prevOf ck.jumpTree a)
    else prevOf ck.jumpTree i
  first : ck'.jumpTreeFirstIndex d =
    if prevOf ck.jumpTree a = 0 then
      (if nextOf ck.jumpTree b = 0 then 0 else b + nextOf ck.jumpTree b)
    else ck.jumpTreeFirstIndex d
  count : ck'.availNodesCount d = ck.availNodesCount d - (b + 1 - a)

theorem LevelOk.cut (ok : LevelOk ck d A) (order : a ≤ b) (block : ∀ i, a ≤ i → i ≤ b → A i)
    (cuts : CutsSpan ck ck' d a b) : LevelCut ck' d A a b := by
  have inA := block a (Nat.le_refl a) order
  have inB := block b order (Nat.le_refl b)
  refine ⟨ok.linked.remove order block cuts.first ?_ ?_, ?_, ?_⟩
  · intro i member outside
    exact cuts.nexts i (ok.within i member).positive outside
  · intro i member outside
    exact cuts.prevs i (ok.within i member).positive outside
  · intro i level outside
    have notBlock : ¬ (a ≤ i ∧ i ≤ b) := fun both => outside (block i both.1 both.2)
    have zero := ok.off i level outside
    constructor
    · rw [cuts.nexts i level.positive notBlock, if_neg, zero.1]
      rintro ⟨some, reach⟩
      rcases ok.prev_cases inA with ⟨none, -⟩ | ⟨-, small, step, -⟩
      · omega
      · rw [show a - prevOf ck.jumpTree a = i by omega] at step
        exact outside step.left
    · rw [cuts.prevs i level.positive notBlock, if_neg, zero.2]
      rintro ⟨some, reach⟩
      rcases ok.next_cases inB with ⟨none, -⟩ | ⟨-, step, -⟩
      · omega
      · rw [← reach] at step
        exact outside step.right
  · rw [cuts.count, ok.count, ncard_remove block]

/-- The nodes of the other levels keep their offsets. -/
theorem CutsSpan.items (cuts : CutsSpan ck ck' d a b) (ok : LevelOk ck d A) (order : a ≤ b)
    (block : ∀ i, a ≤ i → i ≤ b → A i) {e i : Nat} (other : e ≠ d) (level : InLevel e i) :
    getJtItem ck'.jumpTree i = getJtItem ck.jumpTree i := by
  have inA := block a (Nat.le_refl a) order
  have inB := block b order (Nat.le_refl b)
  have apart : ¬ InLevel d i := fun same => other (level.unique same)
  have notBlock : ¬ (a ≤ i ∧ i ≤ b) := fun both => apart (ok.within i (block i both.1 both.2))
  apply jumpNode_eq
  · have prevs := cuts.prevs i level.positive notBlock
    rw [if_neg] at prevs
    · exact prevs
    · rintro ⟨some, reach⟩
      rcases ok.next_cases inB with ⟨none, -⟩ | ⟨-, step, inLevel⟩
      · omega
      · exact apart (reach ▸ inLevel)
  · have nexts := cuts.nexts i level.positive notBlock
    rw [if_neg] at nexts
    · exact nexts
    · rintro ⟨some, reach⟩
      rcases ok.prev_cases inA with ⟨none, -⟩ | ⟨-, small, step, inLevel⟩
      · omega
      · rw [show a - prevOf ck.jumpTree a = i by omega] at inLevel
        exact apart inLevel

end Cut

section Rounds

variable {sh : Short} {ck : Chunk} {d idx left right span : Nat} {A : Nat → Prop}

theorem unlinkNode_count :
    (unlinkNode .unbounded ck (getJtItem ck.jumpTree idx) idx d).availNodesCount =
      Function.update ck.availNodesCount d (ck.availNodesCount d - 1) := by
  simp only [unlinkNode]
  split
  · simp
  · split <;> simp

theorem unlinkNode_first :
    (unlinkNode .unbounded ck (getJtItem ck.jumpTree idx) idx d).jumpTreeFirstIndex =
      if ck.availNodesCount d - 1 = 0 then Function.update ck.jumpTreeFirstIndex d 0
      else if nextOf ck.jumpTree idx ≠ 0 ∧ prevOf ck.jumpTree idx = 0 then
        Function.update ck.jumpTreeFirstIndex d (idx + nextOf ck.jumpTree idx)
      else ck.jumpTreeFirstIndex := by
  have nextDef : (getJtItem ck.jumpTree idx).next = nextOf ck.jumpTree idx := rfl
  have prevDef : (getJtItem ck.jumpTree idx).prev = prevOf ck.jumpTree idx := rfl
  simp only [unlinkNode, nextDef, prevDef]
  by_cases noNext : nextOf ck.jumpTree idx = 0
  · simp [noNext]
  · by_cases noPrev : prevOf ck.jumpTree idx = 0
    · simp [noNext, noPrev]
    · simp [noNext, noPrev]

theorem unlinkNode_cuts (ok : LevelOk ck d A) (member : A idx) :
    CutsSpan ck (unlinkNode .unbounded ck (getJtItem ck.jumpTree idx) idx d) d idx idx := by
  have prevs := ok.prev_cases member
  have nexts := ok.next_cases member
  refine ⟨?_, ?_, ?_, ?_⟩
  · intro i positive outside
    rw [(unlinkNode_items ok member positive).1, if_neg (by omega), Nat.sub_self, Nat.add_zero]
  · intro i positive outside
    rw [(unlinkNode_items ok member positive).2, if_neg (by omega), Nat.sub_self, Nat.add_zero]
  · have single : ck.availNodesCount d - 1 = 0 ↔
        nextOf ck.jumpTree idx = 0 ∧ prevOf ck.jumpTree idx = 0 := by
      have some := ok.count_pos member
      have left := ncard_remove (A := A) (a := idx) (b := idx) (by
        intro i low high
        rwa [show i = idx by omega])
      have finite : Set.Finite {i | A i ∧ ¬ (idx ≤ i ∧ i ≤ idx)} :=
        ok.finite.subset fun i inside => inside.1
      rw [← ok.count, show idx + 1 - idx = 1 by omega] at left
      rw [← left, Set.ncard_eq_zero finite, Set.eq_empty_iff_forall_notMem]
      constructor
      · intro none
        constructor
        · rcases nexts with ⟨zero, -⟩ | ⟨positive, step, -⟩
          · exact zero
          · exact absurd ⟨step.right, by omega⟩ (none (idx + nextOf ck.jumpTree idx))
        · rcases prevs with ⟨zero, -⟩ | ⟨positive, small, step, -⟩
          · exact zero
          · exact absurd ⟨step.left, by omega⟩ (none (idx - prevOf ck.jumpTree idx))
      · rintro ⟨noNext, noPrev⟩ i ⟨inside, different⟩
        rcases nexts with ⟨-, last⟩ | ⟨positive, -⟩
        · rcases prevs with ⟨-, least⟩ | ⟨positive, -⟩
          · have low := least i
            have high := last i
            by_cases less : i < idx
            · exact low less inside
            · exact high (by omega) inside
          · omega
        · omega
    rw [unlinkNode_first]
    by_cases none : ck.availNodesCount d - 1 = 0
    · have both := single.mp none
      simp [none, both]
    · rw [if_neg none]
      by_cases noPrev : prevOf ck.jumpTree idx = 0
      · have someNext : nextOf ck.jumpTree idx ≠ 0 := fun zero => none (single.mpr ⟨zero, noPrev⟩)
        simp [noPrev, someNext]
      · simp [noPrev]
  · rw [unlinkNode_count, Function.update_self]
    omega

/-- The round takes the node out of its level's list and touches no other level. -/
theorem unlinkNode_ok (ok : LevelOk ck d A) (member : A idx) :
    LevelOk (unlinkNode .unbounded ck (getJtItem ck.jumpTree idx) idx d) d
        (fun i => A i ∧ ¬ (idx ≤ i ∧ i ≤ idx)) ∧
      Touches (· = d) ck (unlinkNode .unbounded ck (getJtItem ck.jumpTree idx) idx d) := by
  have block : ∀ i, idx ≤ i → i ≤ idx → A i := by
    intro i low high
    rwa [show i = idx by omega]
  have cuts := unlinkNode_cuts ok member
  have cut := ok.cut (Nat.le_refl idx) block cuts
  constructor
  · refine ⟨fun i inside => ok.within i inside.1, cut.linked, ?_, cut.count⟩
    intro i level outside
    by_cases inside : A i
    · have same : i = idx := by
        by_contra different
        exact outside ⟨inside, by omega⟩
      have items := unlinkNode_items ok member level.positive
      rwa [if_pos same, if_pos same] at items
    · exact cut.off i level inside
  · refine ⟨fun e i other level => cuts.items ok (Nat.le_refl idx) block other level, ?_, ?_,
      ?_, ?_, ?_⟩
    · intro e other
      rw [unlinkNode_first]
      split
      · exact Function.update_of_ne other _ _
      · split
        · exact Function.update_of_ne other _ _
        · rfl
    · intro e other
      rw [unlinkNode_count]
      exact Function.update_of_ne other _ _
    · simp only [unlinkNode]
      split
      · rfl
      · split <;> rfl
    · simp only [unlinkNode]
      split
      · rfl
      · split <;> rfl
    · simp only [unlinkNode]
      split
      · rfl
      · split <;> rfl

theorem unlinkSpan_short (lawful : sh.Lawful) (deep : d ≤ 11) (ok : LevelOk ck d A)
    (width : right + 1 = left + span) (order : left ≤ right)
    (block : ∀ i, left ≤ i → i ≤ right → A i) :
    unlinkSpan sh ck left right span d = unlinkSpan .unbounded ck left right span d := by
  have inLeft := block left (Nat.le_refl left) order
  have inRight := block right order (Nat.le_refl right)
  have zero : sh.ofNat 0 = 0 := lawful.ofNat 0 (by decide)
  have few := ok.count_le
  have narrow : 2 ^ d ≤ 2 ^ 11 := Nat.pow_le_pow_right (by decide) deep
  have enough : span ≤ ck.availNodesCount d := by
    have inside : ↑(Finset.Icc left right) ⊆ {i | A i} := by
      intro i member
      have bounds := Finset.mem_Icc.mp (Finset.mem_coe.mp member)
      exact block i bounds.1 bounds.2
    have le := Set.ncard_le_ncard inside ok.finite
    rw [Set.ncard_coe_finset, Nat.card_Icc, ← ok.count] at le
    omega
  have counted : sh.sub (ck.availNodesCount d) span = ck.availNodesCount d - span :=
    lawful.sub _ _ enough (by omega)
  have nextDef : (getJtItem ck.jumpTree right).next = nextOf ck.jumpTree right := rfl
  have prevDef : (getJtItem ck.jumpTree left).prev = prevOf ck.jumpTree left := rfl
  simp only [unlinkSpan, nextDef, prevDef]
  by_cases noPrev : prevOf ck.jumpTree left = 0
  · by_cases noNext : nextOf ck.jumpTree right = 0
    · simp only [noPrev, noNext, and_self, if_true, counted, Short.unbounded_sub]
    · simp only [noPrev, noNext, and_false, if_true, if_false, counted, setPrev_short zero,
        Short.unbounded_sub]
  · by_cases noNext : nextOf ck.jumpTree right = 0
    · simp only [noPrev, noNext, and_true, if_true, if_false, counted, setNext_short zero,
        Short.unbounded_sub]
    · rcases ok.next_cases inRight with ⟨none, -⟩ | ⟨positive, step, level⟩
      · exact absurd none noNext
      · have nextSmall := level.small deep
        have prevNext := ok.next_of_prev inLeft (by omega)
        have nextPrev := ok.prev_of_next inRight positive
        have prevSmall : prevOf ck.jumpTree left < left := by
          rcases ok.prev_cases inLeft with ⟨none, -⟩ | ⟨-, small, -⟩
          · exact absurd none noPrev
          · exact small
        have one := incrNext_short (t := ck.jumpTree)
          (j := left - prevOf ck.jumpTree left) (v := span - 1 + nextOf ck.jumpTree right)
          lawful (by omega)
        have two := incrPrev_short (t := incrJtItemNext .unbounded ck.jumpTree
            (left - prevOf ck.jumpTree left) (span - 1 + nextOf ck.jumpTree right))
          (j := right + nextOf ck.jumpTree right) (v := span - 1 + prevOf ck.jumpTree left)
          lawful (by
            rw [incrNext_eq, prevOf_setNext]
            omega)
        simp only [noPrev, noNext, and_self, if_false, counted, one, two, Short.unbounded_sub]

theorem unlinkSpan_cuts (ok : LevelOk ck d A) (width : right + 1 = left + span)
    (order : left ≤ right) (block : ∀ i, left ≤ i → i ≤ right → A i) :
    CutsSpan ck (unlinkSpan .unbounded ck left right span d) d left right := by
  have inLeft := block left (Nat.le_refl left) order
  have inRight := block right order (Nat.le_refl right)
  have nextDef : (getJtItem ck.jumpTree right).next = nextOf ck.jumpTree right := rfl
  have prevDef : (getJtItem ck.jumpTree left).prev = prevOf ck.jumpTree left := rfl
  have before : 0 < left - prevOf ck.jumpTree left := by
    have := (ok.within left inLeft).positive
    rcases ok.prev_cases inLeft with ⟨none, -⟩ | ⟨-, small, -⟩ <;> omega
  have after : 0 < right + nextOf ck.jumpTree right := by
    have := (ok.within right inRight).positive
    omega
  refine ⟨?_, ?_, ?_, ?_⟩
  · intro i positive outside
    simp only [unlinkSpan, nextDef, prevDef]
    by_cases noPrev : prevOf ck.jumpTree left = 0
    · by_cases noNext : nextOf ck.jumpTree right = 0
      · simp [noPrev, noNext]
      · simp [noPrev, noNext, nextOf_setPrev]
    · by_cases noNext : nextOf ck.jumpTree right = 0
      · simp only [noPrev, noNext, and_true, if_true, if_false,
          nextOf_setNext positive before, Short.unbounded_ofNat]
        by_cases reach : i = left - prevOf ck.jumpTree left
        · rw [if_pos reach, if_pos (by omega)]
        · rw [if_neg reach, if_neg (by omega)]
      · simp only [noPrev, noNext, and_self, if_false, incrNext_eq, incrPrev_eq,
          nextOf_setPrev, nextOf_setNext positive before, Short.unbounded_ofNat]
        by_cases reach : i = left - prevOf ck.jumpTree left
        · rw [if_pos reach, if_pos (by omega), ← reach]
          omega
        · rw [if_neg reach, if_neg (by omega)]
  · intro i positive outside
    simp only [unlinkSpan, nextDef, prevDef]
    by_cases noPrev : prevOf ck.jumpTree left = 0
    · by_cases noNext : nextOf ck.jumpTree right = 0
      · simp [noPrev, noNext]
      · simp only [noPrev, noNext, and_false, if_true, if_false,
          prevOf_setPrev positive after, Short.unbounded_ofNat]
        by_cases reach : i = right + nextOf ck.jumpTree right
        · rw [if_pos reach, if_pos ⟨by omega, reach⟩]
        · rw [if_neg reach, if_neg (by omega)]
    · by_cases noNext : nextOf ck.jumpTree right = 0
      · simp [noPrev, noNext, prevOf_setNext]
      · simp only [noPrev, noNext, and_self, if_false, incrNext_eq, incrPrev_eq,
          prevOf_setNext, prevOf_setPrev positive after, Short.unbounded_ofNat]
        by_cases reach : i = right + nextOf ck.jumpTree right
        · rw [if_pos reach, if_pos ⟨by omega, reach⟩, ← reach]
          omega
        · rw [if_neg reach, if_neg (by omega)]
  · simp only [unlinkSpan, nextDef, prevDef]
    by_cases noPrev : prevOf ck.jumpTree left = 0
    · by_cases noNext : nextOf ck.jumpTree right = 0
      · simp [noPrev, noNext]
      · simp [noPrev, noNext]
    · by_cases noNext : nextOf ck.jumpTree right = 0
      · simp [noPrev, noNext]
      · simp [noPrev, noNext]
  · have taken : right + 1 - left = span := by omega
    rw [taken]
    simp only [unlinkSpan]
    split
    · simp
    · split
      · simp
      · split <;> simp

/-- The round cuts the span out of its level's list and touches no other level. -/
theorem unlinkSpan_ok (ok : LevelOk ck d A) (width : right + 1 = left + span)
    (order : left ≤ right) (block : ∀ i, left ≤ i → i ≤ right → A i) :
    LevelCut (unlinkSpan .unbounded ck left right span d) d A left right ∧
      Touches (· = d) ck (unlinkSpan .unbounded ck left right span d) := by
  have cuts := unlinkSpan_cuts ok width order block
  refine ⟨ok.cut order block cuts,
    fun e i other level => cuts.items ok order block other level, ?_, ?_, ?_, ?_, ?_⟩
  · intro e other
    simp only [unlinkSpan]
    split
    · exact Function.update_of_ne other _ _
    · split
      · exact Function.update_of_ne other _ _
      · split <;> rfl
  · intro e other
    simp only [unlinkSpan]
    split
    · exact Function.update_of_ne other _ _
    · split
      · exact Function.update_of_ne other _ _
      · split <;> exact Function.update_of_ne other _ _
  · simp only [unlinkSpan]
    split
    · rfl
    · split
      · rfl
      · split <;> rfl
  · simp only [unlinkSpan]
    split
    · rfl
    · split
      · rfl
      · split <;> rfl
  · simp only [unlinkSpan]
    split
    · rfl
    · split
      · rfl
      · split <;> rfl

end Rounds

end Chunk

end Sealloc
