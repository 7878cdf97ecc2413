import Sealloc.InternalAllocator
import Sealloc.Library.Buddy
import Sealloc.Library.HeapTree

/-! The bytes of the internal allocator represent a buddy tree. -/

namespace Sealloc

open Library

theorem IaNode.ofByte_code (node : IaNode) :
    IaNode.ofByte (BitVec.ofNat 8 node.code.val) = node := by
  cases node <;> rfl

theorem getTreeItem_set (mem : Nat → Byte) {i j : Nat} (node : IaNode) (hi : 0 < i) (hj : 0 < j) :
    getTreeItem (setTreeItem mem j node) i = if i = j then node else getTreeItem mem i := by
  unfold getTreeItem setTreeItem
  split
  · next same => rw [same, getCrumb_setCrumb_same, IaNode.ofByte_code]
  · next different => rw [getCrumb_setCrumb_other _ _ (by omega)]

theorem getTreeItem_set_same (mem : Nat → Byte) {j : Nat} (node : IaNode) (hj : 0 < j) :
    getTreeItem (setTreeItem mem j node) j = node := by
  rw [getTreeItem_set mem node hj hj, if_pos rfl]

theorem getTreeItem_set_other (mem : Nat → Byte) {i j : Nat} (node : IaNode) (hi : 0 < i)
    (hj : 0 < j) (different : i ≠ j) :
    getTreeItem (setTreeItem mem j node) i = getTreeItem mem i := by
  rw [getTreeItem_set mem node hi hj, if_neg different]

/-- The state the root node of a tree is in. -/
def rootState : Buddy → IaNode
  | .free => .free
  | .used => .used
  | .node left right => if left.full && right.full then .full else .split

/-- The nodes from `idx` on, where `idx` has height `h`, represent a tree. Nodes
under a free or used one are not looked at. -/
def Represents (mem : Nat → Byte) : Nat → Nat → Buddy → Prop
  | idx, _, .free => getTreeItem mem idx = .free
  | idx, _, .used => getTreeItem mem idx = .used
  | _, 0, .node _ _ => False
  | idx, h + 1, .node left right =>
      getTreeItem mem idx = rootState (.node left right) ∧
        Represents mem (idx * 2) h left ∧ Represents mem (idx * 2 + 1) h right

/-- Node `idx` is `h` levels above the leaves. -/
def AtHeight (idx h : Nat) : Prop := 2 ^ 18 ≤ idx * 2 ^ h ∧ (idx + 1) * 2 ^ h ≤ 2 ^ 19

/-- `2 ^ k` leaves are the least block that holds `size` bytes. -/
def BlockHeight (size k : Nat) : Prop := size ≤ 32 * 2 ^ k ∧ ∀ j < k, 32 * 2 ^ j < size

@[simp] theorem represents_free (mem : Nat → Byte) (idx h : Nat) :
    Represents mem idx h .free ↔ getTreeItem mem idx = .free := by cases h <;> exact Iff.rfl

@[simp] theorem represents_used (mem : Nat → Byte) (idx h : Nat) :
    Represents mem idx h .used ↔ getTreeItem mem idx = .used := by cases h <;> exact Iff.rfl

theorem represents_node (mem : Nat → Byte) (idx h : Nat) (left right : Buddy) :
    Represents mem idx (h + 1) (.node left right) ↔
      getTreeItem mem idx = rootState (.node left right) ∧
        Represents mem (idx * 2) h left ∧ Represents mem (idx * 2 + 1) h right := Iff.rfl

theorem Represents.root {mem : Nat → Byte} {idx h : Nat} {t : Buddy}
    (rep : Represents mem idx h t) : getTreeItem mem idx = rootState t := by
  cases t with
  | free => exact (represents_free mem idx h).mp rep
  | used => exact (represents_used mem idx h).mp rep
  | node left right =>
      cases h with
      | zero => exact rep.elim
      | succ h => exact rep.1

/-- What a tree represents depends on the nodes under its root only. -/
theorem Represents.congr {mem mem' : Nat → Byte} {idx h : Nat} {t : Buddy}
    (rep : Represents mem idx h t)
    (same : ∀ j, Below idx j → getTreeItem mem' j = getTreeItem mem j) :
    Represents mem' idx h t := by
  induction t generalizing idx h with
  | free => simpa [same idx (below_refl idx)] using rep
  | used => simpa [same idx (below_refl idx)] using rep
  | node left right ihl ihr =>
      cases h with
      | zero => exact rep.elim
      | succ h =>
          obtain ⟨root, repLeft, repRight⟩ := rep
          refine ⟨by rw [same idx (below_refl idx), root], ?_, ?_⟩
          · exact ihl repLeft fun j below => same j (below_left below)
          · exact ihr repRight fun j below => same j (below_right below)

section RootState

attribute [local simp] rootState Buddy.full

theorem rootState_full {t : Buddy} (taken : t.full = true) :
    rootState t = .full ∨ rootState t = .used := by
  cases t with
  | free => simp at taken
  | used => exact Or.inr rfl
  | node left right => left; simpa using taken

theorem rootState_notFull {t : Buddy} (space : t.full = false) :
    ¬ (rootState t = .full ∨ rootState t = .used) := by
  cases t with
  | free => simp
  | used => simp at space
  | node left right =>
      have notBoth : ¬ (left.full && right.full) = true := by
        simpa using space
      simp [notBoth]

theorem rootState_free {t : Buddy} : rootState t = .free ↔ t = .free := by
  cases t with
  | free => simp
  | used => simp
  | node left right =>
      simp only [rootState]
      split <;> simp

theorem rootState_used {t : Buddy} : rootState t = .used ↔ t = .used := by
  cases t with
  | free => simp
  | used => simp
  | node left right =>
      simp only [rootState]
      split <;> simp

theorem rootState_full_iff {t : Buddy} :
    rootState t = .full ↔ t.full = true ∧ t ≠ .used := by
  cases t with
  | free => simp
  | used => simp
  | node left right =>
      simp only [rootState, Buddy.full]
      split <;> simp_all

theorem rootState_node_used {left right : Buddy} : rootState (.node left right) ≠ .used := by
  simp only [rootState]
  split <;> simp

end RootState

section Steps

variable {mem : Nat → Byte} {idx : Nat}

theorem log2_halve (large : 1 < idx) : Nat.log2 idx = Nat.log2 (idx / 2) + 1 := by
  rw [Nat.log2_def, if_pos (by omega)]

theorem log2_one : Nat.log2 1 = 0 := by decide

theorem coalesceFullNodes_root (mem : Nat → Byte) : coalesceFullNodes mem 1 = mem := by
  rw [coalesceFullNodes, log2_one]
  rfl

theorem coalesceFullNodes_step (large : 1 < idx) :
    coalesceFullNodes mem idx =
      if getTreeItem mem (neighIdx idx) = .full ∨ getTreeItem mem (neighIdx idx) = .used then
        coalesceFullNodes (setTreeItem mem (idx / 2) .full) (idx / 2)
      else mem := by
  rw [coalesceFullNodes, log2_halve large, coalesceFullNodesLoop, if_pos large]
  rfl

theorem coalesceFreeNodes_root (mem : Nat → Byte) : coalesceFreeNodes mem 1 = mem := by
  rw [coalesceFreeNodes, log2_one]
  rfl

theorem coalesceFreeNodes_step (large : 1 < idx) :
    coalesceFreeNodes mem idx =
      if getTreeItem mem (neighIdx idx) = .free then
        coalesceFreeNodes (setTreeItem mem (idx / 2) .free) (idx / 2)
      else markNodesSplit mem (idx / 2) := by
  rw [coalesceFreeNodes, log2_halve large, coalesceFreeNodesLoop, if_pos large]
  rfl

theorem markNodesSplit_zero (mem : Nat → Byte) : markNodesSplit mem 0 = mem := rfl

theorem markNodesSplit_step (positive : 0 < idx) :
    markNodesSplit mem idx =
      if getTreeItem mem idx = .full then
        markNodesSplit (setTreeItem mem idx .split) (idx / 2)
      else mem := by
  rw [markNodesSplit, markNodesSplitLoop, if_pos positive]
  by_cases large : 1 < idx
  · rw [log2_halve large]
    rfl
  · have one : idx = 1 := by omega
    subst one
    rfl

theorem neighIdx_left (idx : Nat) : neighIdx (idx * 2) = idx * 2 + 1 := by
  unfold neighIdx
  rw [if_neg (by omega)]

theorem neighIdx_right (idx : Nat) : neighIdx (idx * 2 + 1) = idx * 2 := by
  unfold neighIdx
  rw [if_pos (by omega)]
  omega

end Steps

theorem AtHeight.left {idx h : Nat} (at_ : AtHeight idx (h + 1)) : AtHeight (idx * 2) h := by
  obtain ⟨low, high⟩ := at_
  rw [Nat.pow_succ 2 h] at low high
  constructor
  · nlinarith
  · nlinarith [Nat.two_pow_pos h]

theorem AtHeight.right {idx h : Nat} (at_ : AtHeight idx (h + 1)) : AtHeight (idx * 2 + 1) h := by
  obtain ⟨low, high⟩ := at_
  rw [Nat.pow_succ 2 h] at low high
  constructor
  · nlinarith [Nat.two_pow_pos h]
  · nlinarith

theorem AtHeight.positive {idx h : Nat} (at_ : AtHeight idx h) : 0 < idx := by
  rcases Nat.eq_zero_or_pos idx with zero | positive
  · have low := at_.1
    rw [zero] at low
    simp at low
  · exact positive

theorem AtHeight.leaf {idx : Nat} (at_ : AtHeight idx 0) : isLeaf idx := by
  have low := at_.1
  unfold isLeaf internalAllocNoNodes internalAllocNoNodesLastLayer internalAllocChunkSizeBytes
    internalAllocLeastRegionSizeBytes
  omega

theorem AtHeight.notLeaf {idx h : Nat} (at_ : AtHeight idx (h + 1)) : ¬ isLeaf idx := by
  have high := at_.2
  have width : 2 ≤ 2 ^ (h + 1) := by
    rw [Nat.pow_succ]
    have := Nat.two_pow_pos h
    omega
  have bound : (idx + 1) * 2 ≤ 2 ^ 19 := (Nat.mul_le_mul_left _ width).trans high
  unfold isLeaf internalAllocNoNodes internalAllocNoNodesLastLayer internalAllocChunkSizeBytes
    internalAllocLeastRegionSizeBytes
  omega

/-- Going up from a child whose parent is marked split: the parent becomes full exactly
when both children are, and then the pass goes on from it. -/
theorem coalesceFullNodes_child {mem : Nat → Byte} {child : Nat} {t sibling : Buddy}
    (large : 1 < child) (beside : getTreeItem mem (neighIdx child) = rootState sibling) :
    (if t.full then coalesceFullNodes mem child else mem) =
      if t.full && sibling.full then
        coalesceFullNodes (setTreeItem mem (child / 2) .full) (child / 2)
      else mem := by
  cases taken : t.full with
  | false => simp
  | true =>
      cases both : sibling.full with
      | false =>
          have notFull := rootState_notFull both
          rw [← beside] at notFull
          rw [if_pos rfl, coalesceFullNodes_step large, if_neg notFull]
          rfl
      | true =>
          have full := rootState_full both
          rw [← beside] at full
          rw [if_pos rfl, coalesceFullNodes_step large, if_pos full]
          rfl

/-- The bytes outside the nodes from `idx` on are the same. -/
def SameOutside (idx : Nat) (mem mem' : Nat → Byte) : Prop :=
  ∀ j, 0 < j → ¬ Below idx j → getTreeItem mem' j = getTreeItem mem j

theorem SameOutside.trans {idx : Nat} {mem mem' mem'' : Nat → Byte}
    (first : SameOutside idx mem mem') (second : SameOutside idx mem' mem'') :
    SameOutside idx mem mem'' :=
  fun j positive outside => (second j positive outside).trans (first j positive outside)

theorem SameOutside.left {idx : Nat} {mem mem' : Nat → Byte}
    (same : SameOutside (idx * 2) mem mem') : SameOutside idx mem mem' :=
  fun j positive outside => same j positive fun below => outside (below_left below)

theorem SameOutside.right {idx : Nat} {mem mem' : Nat → Byte}
    (same : SameOutside (idx * 2 + 1) mem mem') : SameOutside idx mem mem' :=
  fun j positive outside => same j positive fun below => outside (below_right below)

theorem sameOutside_set (mem : Nat → Byte) {idx j : Nat} (node : IaNode) (positive : 0 < j)
    (below : Below idx j) : SameOutside idx mem (setTreeItem mem j node) := by
  intro i hi outside
  refine getTreeItem_set_other mem node hi positive ?_
  rintro rfl
  exact outside below

/-- The mark a parent carries after a pass of `coalesce_full_nodes` from a child. -/
def markFull (mem : Nat → Byte) (idx : Nat) (t : Buddy) : Nat → Byte :=
  if t.full then setTreeItem mem idx .full else mem

theorem sameOutside_markFull (mem : Nat → Byte) {idx : Nat} (t : Buddy) (positive : 0 < idx) :
    SameOutside idx mem (markFull mem idx t) := by
  unfold markFull
  split
  · exact sameOutside_set mem _ positive (below_refl idx)
  · exact fun _ _ _ => rfl

theorem represents_markFull {mem : Nat → Byte} {idx h : Nat} {left right : Buddy}
    (positive : 0 < idx) (split : getTreeItem mem idx = .split)
    (repLeft : Represents mem (idx * 2) h left)
    (repRight : Represents mem (idx * 2 + 1) h right) :
    Represents (markFull mem idx (.node left right)) idx (h + 1) (.node left right) := by
  have same : ∀ j, idx < j →
      getTreeItem (markFull mem idx (.node left right)) j = getTreeItem mem j := by
    intro j larger
    unfold markFull
    split
    · exact getTreeItem_set_other mem _ (by omega) positive (by omega)
    · rfl
  refine ⟨?_, repLeft.congr fun j below => ?_, repRight.congr fun j below => ?_⟩
  · unfold markFull rootState
    cases taken : (Buddy.node left right).full with
    | true =>
        have both : (left.full && right.full) = true := taken
        simp [both, getTreeItem_set_same mem _ positive]
    | false =>
        have open_ : (left.full && right.full) = false := taken
        simp [open_, split]
  · have := below_le below
    exact same j (by omega)
  · have := below_le below
    exact same j (by omega)

end Sealloc
