import Sealloc.InternalAllocator.Represents

/-! The search of `internal_alloc` computes `Buddy.alloc` on the represented tree. -/

namespace Sealloc

open Library

section Search

variable {size fuel : Nat} {s next : Search} {ia ia' : IntAlloc}

theorem internalAllocLoop_search (inside : ¬ (s.idx = 1 ∧ s.state = .upRight))
    (step : internalAllocStep size s ia = .search next ia') :
    internalAllocLoop size (fuel + 1) s ia = internalAllocLoop size fuel next ia' := by
  simp only [internalAllocLoop, if_neg inside, step]

theorem internalAllocLoop_found {ptr : Nat} (inside : ¬ (s.idx = 1 ∧ s.state = .upRight))
    (step : internalAllocStep size s ia = .found ptr ia') :
    internalAllocLoop size (fuel + 1) s ia = .ok (some ptr) ia' := by
  simp only [internalAllocLoop, if_neg inside, step]

end Search

/-- From `s` the loop takes the block that the tree under `idx` gives for height `k`,
or, when there is none, comes to `back`. -/
def Searches (size k h idx base bound : Nat) (t : Buddy) (s back : Search) (ia : IntAlloc) :
    Prop :=
  match Buddy.alloc k h t with
  | none => ∃ rounds ≤ bound, ∀ fuel,
      internalAllocLoop size (fuel + rounds) s ia = internalAllocLoop size fuel back ia
  | some (offset, rest) => ∃ rounds ≤ bound, ∃ mem,
      Represents mem idx h rest ∧ SameOutside idx ia.buddyTree mem ∧
      ∀ fuel, internalAllocLoop size (fuel + rounds) s ia =
        .ok (some (base + 32 * offset)) {
          freeMem := sub64 ia.freeMem (32 * 2 ^ k)
          buddyTree := if rest.full then coalesceFullNodes mem idx else mem }

theorem blockHeight_fits {size k h : Nat} (least : BlockHeight size k) :
    (32 * 2 ^ (h + 1) / 2 < size ∧ size ≤ 32 * 2 ^ (h + 1)) ↔ h + 1 = k := by
  obtain ⟨holds, below⟩ := least
  constructor
  · rintro ⟨low, high⟩
    rcases Nat.lt_trichotomy (h + 1) k with less | same | more
    · have := below (h + 1) less
      omega
    · exact same
    · have monotone : 2 ^ k ≤ 2 ^ h := Nat.pow_le_pow_right (by decide) (by omega)
      rw [Nat.pow_succ] at low
      omega
  · rintro rfl
    have := below h (Nat.lt_succ_self h)
    rw [Nat.pow_succ] at holds ⊢
    omega

/-- The local variables when the loop stands on a node of height `h`. -/
def searchAt (idx h ptr : Nat) (state : TraverseState) : Search where
  idx := idx
  curSize := 32 * 2 ^ h
  ptr := ptr
  state := state

section Moves

variable {idx h ptr : Nat} {state : TraverseState}

theorem searchAt_left :
    (searchAt idx (h + 1) ptr state).left = searchAt (idx * 2) h ptr state := by
  simp only [searchAt, Search.left, Nat.pow_succ, Search.mk.injEq, true_and, and_true]
  omega

theorem searchAt_right (word : ptr + 32 * 2 ^ (h + 1) < 2 ^ 64) :
    (searchAt idx (h + 1) ptr state).right =
      searchAt (idx * 2 + 1) h (ptr + 32 * 2 ^ h) .down := by
  rw [Nat.pow_succ] at word
  have half : 32 * (2 ^ h * 2) / 2 = 32 * 2 ^ h := by omega
  simp only [searchAt, Search.right, Nat.pow_succ, half, Search.mk.injEq, true_and, and_true]
  exact u64_eq (by omega)

theorem searchAt_up_left (word : ptr + 32 * 2 ^ (h + 1) < 2 ^ 64) :
    (searchAt (idx * 2) h ptr state).up = searchAt idx (h + 1) ptr .upLeft := by
  rw [Nat.pow_succ] at word
  simp only [searchAt, Search.up, Nat.pow_succ, Nat.mul_mod_left, Search.mk.injEq]
  refine ⟨by omega, ?_, rfl, rfl⟩
  rw [u64_eq (by omega)]
  omega

theorem searchAt_up_right (word : ptr + 32 * 2 ^ (h + 1) < 2 ^ 64) :
    (searchAt (idx * 2 + 1) h (ptr + 32 * 2 ^ h) state).up =
      searchAt idx (h + 1) ptr .upRight := by
  rw [Nat.pow_succ] at word
  have odd : (idx * 2 + 1) % 2 = 1 := by omega
  simp only [searchAt, Search.up, Nat.pow_succ, odd, if_true, Search.mk.injEq]
  refine ⟨by omega, ?_, ?_, trivial⟩
  · rw [u64_eq (by omega)]
    omega
  · rw [sub64_eq (by omega) (by omega)]
    omega

end Moves

section Visits

variable {size k h idx ptr : Nat} {t left right : Buddy} {ia : IntAlloc}

theorem visit_upLeft (at_ : AtHeight idx (h + 1)) :
    internalAllocStep size (searchAt idx (h + 1) ptr .upLeft) ia =
      .search (searchAt idx (h + 1) ptr .upLeft).right ia := by
  have inner : ¬ isLeaf (searchAt idx (h + 1) ptr .upLeft).idx := at_.notLeaf
  rw [internalAllocStep, if_neg inner]
  rfl

theorem visit_upRight (at_ : AtHeight idx (h + 1)) :
    internalAllocStep size (searchAt idx (h + 1) ptr .upRight) ia =
      .search (searchAt idx (h + 1) ptr .upRight).up ia := by
  have inner : ¬ isLeaf (searchAt idx (h + 1) ptr .upRight).idx := at_.notLeaf
  rw [internalAllocStep, if_neg inner]
  rfl

theorem visit_full (at_ : AtHeight idx (h + 1)) (full : getTreeItem ia.buddyTree idx = .full) :
    internalAllocStep size (searchAt idx (h + 1) ptr .down) ia =
      .search (searchAt idx (h + 1) ptr .down).up ia := by
  have inner : ¬ isLeaf (searchAt idx (h + 1) ptr .down).idx := at_.notLeaf
  rw [internalAllocStep, if_neg inner]
  simp only [searchAt, full]

theorem visit_used (used : getTreeItem ia.buddyTree idx = .used) :
    internalAllocStep size (searchAt idx h ptr .down) ia =
      .search (searchAt idx h ptr .down).up ia := by
  unfold internalAllocStep
  simp only [searchAt, used]
  split <;> rfl

theorem visit_split (ptr : Nat) (least : BlockHeight size k) (at_ : AtHeight idx (h + 1))
    (split : getTreeItem ia.buddyTree idx = .split) :
    internalAllocStep size (searchAt idx (h + 1) ptr .down) ia =
      if h + 1 = k then .search (searchAt idx (h + 1) ptr .down).up ia
      else .search (searchAt idx (h + 1) ptr .down).left ia := by
  have inner : ¬ isLeaf (searchAt idx (h + 1) ptr .down).idx := at_.notLeaf
  rw [internalAllocStep, if_neg inner]
  simp only [searchAt, split, blockHeight_fits least]

theorem visit_free (ptr : Nat) (least : BlockHeight size k) (at_ : AtHeight idx (h + 1))
    (free : getTreeItem ia.buddyTree idx = .free) :
    internalAllocStep size (searchAt idx (h + 1) ptr .down) ia =
      if h + 1 = k then .found ptr (takeNode (searchAt idx (h + 1) ptr .down) ia)
      else .search (searchAt idx (h + 1) ptr .down).left
        (splitNode (searchAt idx (h + 1) ptr .down) ia) := by
  have inner : ¬ isLeaf (searchAt idx (h + 1) ptr .down).idx := at_.notLeaf
  rw [internalAllocStep, if_neg inner]
  simp only [searchAt, free, blockHeight_fits least]

theorem visit_leaf_free (at_ : AtHeight idx 0) (free : getTreeItem ia.buddyTree idx = .free) :
    internalAllocStep size (searchAt idx 0 ptr .down) ia =
      .found ptr (takeNode (searchAt idx 0 ptr .down) ia) := by
  have leaf : isLeaf (searchAt idx 0 ptr .down).idx := at_.leaf
  rw [internalAllocStep, if_pos leaf]
  simp only [searchAt, free]

/-- The three stores of a split leave a split node over two free halves. -/
theorem splitNode_represents (h ptr : Nat) (ia : IntAlloc) (positive : 0 < idx) :
    let tree := (splitNode (searchAt idx (h + 1) ptr .down) ia).buddyTree
    getTreeItem tree idx = .split ∧ Represents tree (idx * 2) h .free ∧
      Represents tree (idx * 2 + 1) h .free ∧ SameOutside idx ia.buddyTree tree := by
  have left : Below idx (idx * 2) := ⟨1, by omega⟩
  have right : Below idx (idx * 2 + 1) := ⟨1, by omega⟩
  simp only [splitNode, searchAt, represents_free]
  refine ⟨?_, ?_, ?_, ?_⟩
  · rw [getTreeItem_set_other _ _ positive (by omega) (by omega),
      getTreeItem_set_other _ _ positive (by omega) (by omega),
      getTreeItem_set_same _ _ positive]
  · rw [getTreeItem_set_other _ _ (by omega) (by omega) (by omega),
      getTreeItem_set_same _ _ (by omega)]
  · exact getTreeItem_set_same _ _ (by omega)
  · exact ((sameOutside_set _ _ positive (below_refl idx)).trans
      (sameOutside_set _ _ (by omega) left)).trans (sameOutside_set _ _ (by omega) right)

/-- A block of the whole node is taken. -/
theorem searches_take (fits : k = h) (positive : 0 < idx)
    (inside : ¬ ((searchAt idx h ptr .down).idx = 1 ∧
      (searchAt idx h ptr .down).state = .upRight))
    (step : internalAllocStep size (searchAt idx h ptr .down) ia =
      .found ptr (takeNode (searchAt idx h ptr .down) ia)) (back : Search) :
    Searches size k h idx ptr 1 .free (searchAt idx h ptr .down) back ia := by
  subst fits
  have carved : Buddy.carve k k = .used := by cases k <;> simp [Buddy.carve]
  simp only [Searches, Buddy.alloc_free, carved, represents_used]
  refine ⟨1, Nat.le_refl _, setTreeItem ia.buddyTree idx .used,
    getTreeItem_set_same _ _ positive, sameOutside_set _ _ positive (below_refl idx), ?_⟩
  intro fuel
  rw [internalAllocLoop_found inside step]
  rfl

end Visits

section Searches

variable {size k h idx base bound : Nat} {t : Buddy} {s s' back back' : Search} {ia : IntAlloc}

theorem Searches.weaken {larger : Nat} (searches : Searches size k h idx base bound t s back ia)
    (le : bound ≤ larger) : Searches size k h idx base larger t s back ia := by
  unfold Searches at searches ⊢
  cases found : Buddy.alloc k h t with
  | none =>
      rw [found] at searches
      obtain ⟨rounds, few, run⟩ := searches
      exact ⟨rounds, few.trans le, run⟩
  | some result =>
      rw [found] at searches
      obtain ⟨rounds, few, rest⟩ := searches
      exact ⟨rounds, few.trans le, rest⟩

theorem Searches.before (searches : Searches size k h idx base bound t s back ia)
    (step : ∀ fuel, internalAllocLoop size (fuel + 1) s' ia = internalAllocLoop size fuel s ia) :
    Searches size k h idx base (bound + 1) t s' back ia := by
  unfold Searches at searches ⊢
  cases found : Buddy.alloc k h t with
  | none =>
      rw [found] at searches
      obtain ⟨rounds, few, run⟩ := searches
      refine ⟨rounds + 1, by omega, fun fuel => ?_⟩
      rw [← Nat.add_assoc, step, run]
  | some result =>
      obtain ⟨offset, rest⟩ := result
      rw [found] at searches
      obtain ⟨rounds, few, mem, rep, outside, run⟩ := searches
      refine ⟨rounds + 1, by omega, mem, rep, outside, fun fuel => ?_⟩
      rw [← Nat.add_assoc, step, run]

theorem Searches.after (searches : Searches size k h idx base bound t s back ia)
    (step : ∀ fuel,
      internalAllocLoop size (fuel + 1) back ia = internalAllocLoop size fuel back' ia) :
    Searches size k h idx base (bound + 1) t s back' ia := by
  unfold Searches at searches ⊢
  cases found : Buddy.alloc k h t with
  | none =>
      rw [found] at searches
      obtain ⟨rounds, few, run⟩ := searches
      refine ⟨1 + rounds, by omega, fun fuel => ?_⟩
      rw [← Nat.add_assoc, run, step]
  | some result =>
      rw [found] at searches
      obtain ⟨rounds, few, rest⟩ := searches
      exact ⟨rounds, by omega, rest⟩

end Searches

/-- What the search does on every node of height `h` below the root. -/
def NodeSearch (size k h : Nat) : Prop :=
  ∀ {idx : Nat} {t : Buddy} {ia : IntAlloc} (ptr : Nat), 1 < idx → AtHeight idx h →
    Buddy.WellFormed h t → Represents ia.buddyTree idx h t → ptr + 32 * 2 ^ h < 2 ^ 64 →
    Searches size k h idx ptr (4 * 2 ^ h - 3) t (searchAt idx h ptr .down)
      (searchAt idx h ptr .down).up ia

/-- The passes up from a child and from its parent leave the same bytes. -/
theorem coalesceFullNodes_markFull (mem : Nat → Byte) (child : Nat) (t sibling node : Buddy)
    (large : 1 < child) (beside : getTreeItem mem (neighIdx child) = rootState sibling)
    (both : node.full = (t.full && sibling.full)) :
    (if t.full then coalesceFullNodes mem child else mem) =
      if node.full then coalesceFullNodes (markFull mem (child / 2) node) (child / 2)
      else markFull mem (child / 2) node := by
  rw [coalesceFullNodes_child large beside, ← both]
  unfold markFull
  cases node.full <;> rfl

/-- The loop looks at the left half, and at the right half when the left gives nothing. -/
theorem searches_children {size k h idx ptr : Nat} {left right : Buddy} {ia : IntAlloc}
    (ih : NodeSearch size k h) (fits : k ≤ h) (at_ : AtHeight idx (h + 1))
    (wfLeft : Buddy.WellFormed h left) (wfRight : Buddy.WellFormed h right)
    (split : getTreeItem ia.buddyTree idx = .split)
    (repLeft : Represents ia.buddyTree (idx * 2) h left)
    (repRight : Represents ia.buddyTree (idx * 2 + 1) h right)
    (word : ptr + 32 * 2 ^ (h + 1) < 2 ^ 64) :
    Searches size k (h + 1) idx ptr (8 * 2 ^ h - 5) (.node left right)
      (searchAt (idx * 2) h ptr .down) (searchAt idx (h + 1) ptr .upRight) ia := by
  have positive : 0 < idx := at_.positive
  have width : 0 < 2 ^ h := Nat.two_pow_pos h
  have double : 2 ^ (h + 1) = 2 ^ h * 2 := Nat.pow_succ 2 h
  have inLeft := ih ptr (by omega) at_.left wfLeft repLeft (by omega)
  have inRight := ih (ptr + 32 * 2 ^ h) (by omega) at_.right wfRight repRight (by omega)
  rw [searchAt_up_left word] at inLeft
  rw [searchAt_up_right word] at inRight
  have smaller : ¬ k = h + 1 := by omega
  unfold Searches at *
  simp only [Buddy.alloc, if_neg smaller]
  cases first : Buddy.alloc k h left with
  | some result =>
      obtain ⟨offset, rest⟩ := result
      rw [first] at inLeft
      obtain ⟨rounds, few, mem, rep, outside, run⟩ := inLeft
      have parent : getTreeItem mem idx = .split := by
        rw [outside idx positive fun below => by have := below_le below; omega, split]
      have other : Represents mem (idx * 2 + 1) h right := repRight.congr fun j below =>
        outside j (by have := below_le below; omega)
          fun both => below_children_apart positive both below
      refine ⟨rounds, by omega, markFull mem idx (.node rest right),
        represents_markFull positive parent rep other,
        outside.left.trans (sameOutside_markFull mem _ positive), fun fuel => ?_⟩
      have passes := coalesceFullNodes_markFull mem (idx * 2) rest right (.node rest right) (by omega)
        (by rw [neighIdx_left]; exact other.root) rfl
      rw [Nat.mul_div_cancel idx (by decide)] at passes
      rw [run, passes]
  | none =>
      rw [first] at inLeft
      obtain ⟨rounds, few, run⟩ := inLeft
      have turn : ∀ fuel, internalAllocLoop size (fuel + 1) (searchAt idx (h + 1) ptr .upLeft) ia =
          internalAllocLoop size fuel (searchAt (idx * 2 + 1) h (ptr + 32 * 2 ^ h) .down) ia := by
        intro fuel
        have visit : internalAllocStep size (searchAt idx (h + 1) ptr .upLeft) ia =
            .search (searchAt idx (h + 1) ptr .upLeft).right ia := visit_upLeft at_
        rw [internalAllocLoop_search (by simp [searchAt]) visit, searchAt_right word]
      cases second : Buddy.alloc k h right with
      | none =>
          rw [second] at inRight
          obtain ⟨roundsRight, fewRight, runRight⟩ := inRight
          refine ⟨roundsRight + 1 + rounds, by omega, fun fuel => ?_⟩
          rw [← Nat.add_assoc, run, ← Nat.add_assoc, turn, runRight]
      | some result =>
          obtain ⟨offset, rest⟩ := result
          rw [second] at inRight
          obtain ⟨roundsRight, fewRight, mem, rep, outside, runRight⟩ := inRight
          have parent : getTreeItem mem idx = .split := by
            rw [outside idx positive fun below => by have := below_le below; omega, split]
          have other : Represents mem (idx * 2) h left := repLeft.congr fun j below =>
            outside j (by have := below_le below; omega)
              fun both => below_children_apart positive below both
          refine ⟨roundsRight + 1 + rounds, by omega, markFull mem idx (.node left rest),
            represents_markFull positive parent other rep,
            outside.right.trans (sameOutside_markFull mem _ positive), fun fuel => ?_⟩
          have passes := coalesceFullNodes_markFull mem (idx * 2 + 1) rest left (.node left rest)
            (by omega)
            (by rw [neighIdx_right]; exact other.root) (Bool.and_comm _ _)
          rw [show (idx * 2 + 1) / 2 = idx by omega] at passes
          rw [← Nat.add_assoc, run, ← Nat.add_assoc, turn, runRight, passes, Nat.mul_add,
            ← Nat.add_assoc]

/-- A free node above the wanted height is split and searched in its left half. -/
theorem searches_free {size k h idx ptr : Nat} {ia : IntAlloc} {back : Search}
    (ih : NodeSearch size k h) (least : BlockHeight size k) (fits : k ≤ h)
    (at_ : AtHeight idx (h + 1)) (free : getTreeItem ia.buddyTree idx = .free)
    (word : ptr + 32 * 2 ^ (h + 1) < 2 ^ 64) :
    Searches size k (h + 1) idx ptr (8 * 2 ^ h - 4) .free (searchAt idx (h + 1) ptr .down)
      back ia := by
  obtain ⟨split, freeLeft, freeRight, outside⟩ :=
    splitNode_represents h ptr ia at_.positive
  have children := searches_children ih fits at_ (Buddy.wellFormed_free h)
    (Buddy.wellFormed_free h) split freeLeft freeRight word
  have width : 0 < 2 ^ h := Nat.two_pow_pos h
  have smaller : ¬ h + 1 = k := by omega
  have larger : ¬ k = h + 1 := by omega
  have visit := visit_free ptr least at_ free
  rw [if_neg smaller, searchAt_left] at visit
  unfold Searches at children ⊢
  simp only [Buddy.alloc, if_neg larger, Buddy.alloc_free] at children
  simp only [Buddy.alloc_free, Buddy.carve, if_neg larger]
  obtain ⟨rounds, few, mem, rep, after, run⟩ := children
  refine ⟨rounds + 1, by omega, mem, rep, outside.trans after, fun fuel => ?_⟩
  rw [← Nat.add_assoc, internalAllocLoop_search (by simp [searchAt]) visit, run]
  rfl

theorem node_search {size k : Nat} (least : BlockHeight size k) (h : Nat) (fits : k ≤ h) :
    NodeSearch size k h := by
  induction h with
  | zero =>
      intro idx t ia ptr large at_ wf rep word
      have zero : k = 0 := by omega
      have inside : ¬ ((searchAt idx 0 ptr .down).idx = 1 ∧
          (searchAt idx 0 ptr .down).state = .upRight) := by simp [searchAt]
      cases t with
      | free =>
          have free : getTreeItem ia.buddyTree idx = .free := (represents_free _ _ _).mp rep
          exact searches_take zero (by omega) inside (visit_leaf_free at_ free) _
      | used =>
          have used : getTreeItem ia.buddyTree idx = .used := (represents_used _ _ _).mp rep
          exact ⟨1, Nat.le_refl _, fun fuel => internalAllocLoop_search inside (visit_used used)⟩
      | node left right => exact wf.elim
  | succ h ih =>
      intro idx t ia ptr large at_ wf rep word
      have inside : ¬ ((searchAt idx (h + 1) ptr .down).idx = 1 ∧
          (searchAt idx (h + 1) ptr .down).state = .upRight) := by simp [searchAt]
      have width : 0 < 2 ^ h := Nat.two_pow_pos h
      have double : 2 ^ (h + 1) = 2 ^ h * 2 := Nat.pow_succ 2 h
      have goUp : internalAllocStep size (searchAt idx (h + 1) ptr .down) ia =
            .search (searchAt idx (h + 1) ptr .down).up ia →
          Buddy.alloc k (h + 1) t = none →
          Searches size k (h + 1) idx ptr (4 * 2 ^ (h + 1) - 3) t (searchAt idx (h + 1) ptr .down)
            (searchAt idx (h + 1) ptr .down).up ia := by
        intro step nothing
        unfold Searches
        rw [nothing]
        exact ⟨1, by omega, fun fuel => internalAllocLoop_search inside step⟩
      cases t with
      | free =>
          have free : getTreeItem ia.buddyTree idx = .free := (represents_free _ _ _).mp rep
          by_cases same : h + 1 = k
          · have visit := visit_free ptr least at_ free
            rw [if_pos same] at visit
            exact (searches_take same.symm (by omega) inside visit _).weaken (by omega)
          · exact (searches_free (ih (by omega)) least (by omega) at_ free word).weaken (by omega)
      | used =>
          have used : getTreeItem ia.buddyTree idx = .used := (represents_used _ _ _).mp rep
          exact goUp (visit_used used) (Buddy.alloc_used _ _)
      | node left right =>
          obtain ⟨root, repLeft, repRight⟩ := rep
          by_cases taken : (Buddy.node left right).full = true
          · have full : getTreeItem ia.buddyTree idx = .full := by
              rw [root]
              exact if_pos taken
            exact goUp (visit_full at_ full) (Buddy.alloc_full taken)
          · have split : getTreeItem ia.buddyTree idx = .split := by
              rw [root]
              exact if_neg taken
            have visit := visit_split ptr least at_ split
            by_cases same : h + 1 = k
            · rw [if_pos same] at visit
              exact goUp visit (by simp [Buddy.alloc, same])
            · rw [if_neg same, searchAt_left] at visit
              have children := searches_children (ih (by omega)) (by omega) at_ wf.1 wf.2.1
                split repLeft repRight word
              have back : internalAllocStep size (searchAt idx (h + 1) ptr .upRight) ia =
                  .search (searchAt idx (h + 1) ptr .upRight).up ia := visit_upRight at_
              exact ((children.before fun fuel => internalAllocLoop_search inside visit).after
                fun fuel => internalAllocLoop_search (by simp [searchAt]; omega) back).weaken
                  (by omega)

/-- The search of the whole tree, which ends when it comes back to the root. -/
theorem root_search {size k ptr : Nat} {t : Buddy} {ia : IntAlloc} (least : BlockHeight size k)
    (fits : k ≤ 17) (wf : Buddy.WellFormed 18 t) (rep : Represents ia.buddyTree 1 18 t)
    (space : t.full = false) (word : ptr + 32 * 2 ^ 18 < 2 ^ 64) :
    match Buddy.alloc k 18 t with
    | none => internalAllocLoop size internalAllocFuel (searchAt 1 18 ptr .down) ia = .ok none ia
    | some (offset, rest) => ∃ mem, Represents mem 1 18 rest ∧
        internalAllocLoop size internalAllocFuel (searchAt 1 18 ptr .down) ia =
          .ok (some (ptr + 32 * offset)) {
            freeMem := sub64 ia.freeMem (32 * 2 ^ k), buddyTree := mem } := by
  have at_ : AtHeight 1 (17 + 1) := by constructor <;> norm_num
  have search : Searches size k 18 1 ptr 1048575 t (searchAt 1 18 ptr .down)
      (searchAt 1 18 ptr .upRight) ia := by
    cases t with
    | free =>
        have free : getTreeItem ia.buddyTree 1 = .free := (represents_free _ _ _).mp rep
        exact (searches_free (node_search least 17 fits) least fits at_ free word).weaken
          (by norm_num)
    | used => simp [Buddy.full] at space
    | node left right =>
        obtain ⟨root, repLeft, repRight⟩ := rep
        have split : getTreeItem ia.buddyTree 1 = .split := by
          rw [root]
          exact if_neg (by simpa [Buddy.full] using space)
        have visit := visit_split ptr least at_ split
        rw [if_neg (by omega), searchAt_left] at visit
        have children := searches_children (node_search least 17 fits) fits at_ wf.1 wf.2.1
          split repLeft repRight word
        exact (children.before fun fuel =>
          internalAllocLoop_search (by simp [searchAt]) visit).weaken (by norm_num)
  unfold Searches at search
  cases found : Buddy.alloc k 18 t with
  | none =>
      rw [found] at search
      obtain ⟨rounds, few, run⟩ := search
      have enough : internalAllocFuel = (internalAllocFuel - rounds - 1) + 1 + rounds := by
        unfold internalAllocFuel
        omega
      rw [enough, run]
      simp [internalAllocLoop, searchAt]
  | some result =>
      obtain ⟨offset, rest⟩ := result
      rw [found] at search
      obtain ⟨rounds, few, mem, repRest, outside, run⟩ := search
      have enough : internalAllocFuel = (internalAllocFuel - rounds) + rounds := by
        unfold internalAllocFuel
        omega
      refine ⟨mem, repRest, ?_⟩
      rw [enough, run, coalesceFullNodes_root, ite_self]

end Sealloc
