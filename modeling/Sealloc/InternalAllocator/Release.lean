import Sealloc.InternalAllocator.Represents

/-! `internal_free` computes `Buddy.release` on the represented tree. -/

namespace Sealloc

open Library

/-- What the passes of `internal_free` still do at `idx` once the nodes from `idx` on
represent the tree `freed`. -/
def finishFree (freed : Buddy) (wasFull : Bool) (mem : Nat → Byte) (idx : Nat) : Nat → Byte :=
  if freed = .free then coalesceFreeNodes mem idx
  else if wasFull then markNodesSplit mem (idx / 2)
  else mem

/-- The mark a parent carries when a block under it has been freed. -/
def markFreed (mem : Nat → Byte) (idx : Nat) (freed : Buddy) (wasFull : Bool) : Nat → Byte :=
  if freed = .free then setTreeItem mem idx .free
  else if wasFull then setTreeItem mem idx .split
  else mem

theorem sameOutside_markFreed (mem : Nat → Byte) {idx : Nat} (freed : Buddy) (wasFull : Bool)
    (positive : 0 < idx) : SameOutside idx mem (markFreed mem idx freed wasFull) := by
  unfold markFreed
  split
  · exact sameOutside_set mem _ positive (below_refl idx)
  · split
    · exact sameOutside_set mem _ positive (below_refl idx)
    · exact fun _ _ _ => rfl

theorem markFreed_children (mem : Nat → Byte) {idx j : Nat} (freed : Buddy) (wasFull : Bool)
    (positive : 0 < idx) (larger : idx < j) :
    getTreeItem (markFreed mem idx freed wasFull) j = getTreeItem mem j := by
  unfold markFreed
  split
  · exact getTreeItem_set_other mem _ (by omega) positive (by omega)
  · split
    · exact getTreeItem_set_other mem _ (by omega) positive (by omega)
    · rfl

theorem represents_markFreed {mem : Nat → Byte} {idx h : Nat} {left right : Buddy}
    {wasFull : Bool} (positive : 0 < idx) (space : (Buddy.merge left right).full = false)
    (before : getTreeItem mem idx = if wasFull then .full else .split)
    (repLeft : Represents mem (idx * 2) h left)
    (repRight : Represents mem (idx * 2 + 1) h right) :
    Represents (markFreed mem idx (.merge left right) wasFull) idx (h + 1)
      (.merge left right) := by
  by_cases both : left = .free ∧ right = .free
  · obtain ⟨rfl, rfl⟩ := both
    simp [Buddy.merge, markFreed, getTreeItem_set_same mem _ positive]
  · rw [Buddy.merge_node both] at space ⊢
    refine ⟨?_, repLeft.congr fun j below => ?_, repRight.congr fun j below => ?_⟩
    · have open_ : (left.full && right.full) = false := space
      rw [rootState, open_, markFreed, if_neg (by simp)]
      cases wasFull with
      | true => simp [getTreeItem_set_same mem _ positive]
      | false => simpa using before
    · exact markFreed_children mem _ _ positive (by have := below_le below; omega)
    · exact markFreed_children mem _ _ positive (by have := below_le below; omega)

/-- Going on from a child to its parent. -/
theorem finishFree_child {mem : Nat → Byte} (child : Nat) (freed : Buddy)
    {sibling merged : Buddy} (wasFull : Bool) (large : 1 < child)
    (beside : getTreeItem mem (neighIdx child) = rootState sibling)
    (parent : getTreeItem mem (child / 2) =
      if wasFull && sibling.full then .full else .split)
    (joined : merged = .free ↔ freed = .free ∧ sibling = .free) :
    finishFree freed wasFull mem child =
      finishFree merged (wasFull && sibling.full)
        (markFreed mem (child / 2) merged (wasFull && sibling.full)) (child / 2) := by
  unfold finishFree markFreed
  by_cases gone : freed = .free
  · rw [if_pos gone, coalesceFreeNodes_step large, beside]
    by_cases free : sibling = .free
    · have all : merged = .free := joined.mpr ⟨gone, free⟩
      simp [all, free, rootState]
    · have some : ¬ merged = .free := fun all => free (joined.mp all).2
      rw [if_neg (fun state => free (rootState_free.mp state)), if_neg some, if_neg some,
        markNodesSplit_step (by omega), parent]
      cases wasFull && sibling.full <;> simp
  · have some : ¬ merged = .free := fun all => gone (joined.mp all).1
    rw [if_neg gone, if_neg some, if_neg some]
    cases full : wasFull with
    | false => simp
    | true =>
        rw [full] at parent
        rw [if_pos rfl, markNodesSplit_step (by omega), parent]
        cases sibling.full <;> simp

theorem merge_free {left right : Buddy} :
    Buddy.merge left right = .free ↔ left = .free ∧ right = .free := by
  constructor
  · intro joined
    by_contra both
    rw [Buddy.merge_node both] at joined
    simp at joined
  · rintro ⟨rfl, rfl⟩
    rfl

/-- From a node over a live block, the search of `internal_free` finds the block, and the
passes that follow leave the tree without it. -/
theorem internalFree_node {mem : Nat → Byte} {idx h base offset k : Nat} {t : Buddy}
    (ptr rounds : Nat) (at_ : AtHeight idx h) (rep : Represents mem idx h t)
    (member : (base + offset, k) ∈ Buddy.blocks base h t) (enough : h < rounds) :
    ∃ node mem', internalFreeFind mem (ptr + 32 * offset) rounds idx ptr (32 * 2 ^ h) =
        some (node, 32 * 2 ^ k) ∧
      Represents mem' idx h (Buddy.release offset h t) ∧ SameOutside idx mem mem' ∧
      coalesceFreeNodes (setTreeItem mem node .free) node =
        finishFree (Buddy.release offset h t) t.full mem' idx := by
  induction t generalizing idx h base offset ptr rounds with
  | free => simp at member
  | used =>
      obtain ⟨rounds, rfl⟩ : ∃ n, rounds = n + 1 := ⟨rounds - 1, by omega⟩
      rw [Buddy.blocks_used, List.mem_singleton, Prod.mk.injEq] at member
      have zero : offset = 0 := by omega
      have used : getTreeItem mem idx = .used := (represents_used _ _ _).mp rep
      refine ⟨idx, setTreeItem mem idx .free, ?_, ?_, ?_, ?_⟩
      · simp [internalFreeFind, zero, used, member.2]
      · simp [getTreeItem_set_same mem _ at_.positive]
      · exact sameOutside_set mem _ at_.positive (below_refl idx)
      · simp [finishFree]
  | node left right ihl ihr =>
      cases h with
      | zero => exact rep.elim
      | succ h =>
          obtain ⟨rounds, rfl⟩ : ∃ n, rounds = n + 1 := ⟨rounds - 1, by omega⟩
          obtain ⟨root, repLeft, repRight⟩ := rep
          have positive := at_.positive
          have notUsed : getTreeItem mem idx ≠ .used := by
            rw [root]
            exact rootState_node_used
          have half : 32 * 2 ^ (h + 1) / 2 = 32 * 2 ^ h := by
            rw [Nat.pow_succ]
            omega
          have space := Buddy.release_full member
          have step : internalFreeFind mem (ptr + 32 * offset) (rounds + 1) idx ptr
              (32 * 2 ^ (h + 1)) =
              if 2 ^ h ≤ offset then
                internalFreeFind mem (ptr + 32 * offset) rounds (idx * 2 + 1) (ptr + 32 * 2 ^ h)
                  (32 * 2 ^ h)
              else
                internalFreeFind mem (ptr + 32 * offset) rounds (idx * 2) ptr (32 * 2 ^ h) := by
            rw [internalFreeFind, if_neg (fun both => notUsed both.2), if_neg at_.notLeaf, half]
            by_cases side : 2 ^ h ≤ offset
            · rw [if_pos side, if_pos (by omega)]
            · rw [if_neg side, if_neg (by omega)]
          rcases Buddy.block_side member with ⟨low, inLeft⟩ | ⟨high, inRight⟩
          · obtain ⟨node, mem', find, repFreed, outside, passes⟩ :=
              ihl ptr rounds at_.left repLeft inLeft (by omega)
            have released : Buddy.release offset (h + 1) (.node left right) =
                .merge (Buddy.release offset h left) right := by
              rw [Buddy.release, if_pos low]
            rw [released] at space ⊢
            have other : Represents mem' (idx * 2 + 1) h right := repRight.congr fun j below =>
              outside j (by have := below_le below; omega)
                fun both => below_children_apart positive both below
            have before : getTreeItem mem' idx =
                if left.full && right.full then .full else .split := by
              rw [outside idx positive fun below => by have := below_le below; omega, root]
              rfl
            have parent := finishFree_child (idx * 2) (Buddy.release offset h left) left.full
              (by omega) (by rw [neighIdx_left]; exact other.root)
              (by rw [Nat.mul_div_cancel idx (by decide)]; exact before) merge_free
            rw [Nat.mul_div_cancel idx (by decide)] at parent
            exact ⟨node, _, by rw [step, if_neg (by omega), find],
              represents_markFreed positive space before repFreed other,
              outside.left.trans (sameOutside_markFreed mem' _ _ positive),
              passes.trans parent⟩
          · obtain ⟨node, mem', find, repFreed, outside, passes⟩ :=
              ihr (ptr + 32 * 2 ^ h) rounds at_.right repRight inRight (by omega)
            rw [show ptr + 32 * 2 ^ h + 32 * (offset - 2 ^ h) = ptr + 32 * offset by omega] at find
            have released : Buddy.release offset (h + 1) (.node left right) =
                .merge left (Buddy.release (offset - 2 ^ h) h right) := by
              rw [Buddy.release, if_neg (by omega)]
            rw [released] at space ⊢
            have other : Represents mem' (idx * 2) h left := repLeft.congr fun j below =>
              outside j (by have := below_le below; omega)
                fun both => below_children_apart positive below both
            have before : getTreeItem mem' idx =
                if right.full && left.full then .full else .split := by
              rw [outside idx positive fun below => by have := below_le below; omega, root,
                Bool.and_comm]
              rfl
            have halves : (idx * 2 + 1) / 2 = idx := by omega
            have parent := finishFree_child (idx * 2 + 1)
              (Buddy.release (offset - 2 ^ h) h right) right.full
              (by omega) (by rw [neighIdx_right]; exact other.root)
              (by rw [halves]; exact before) (merge_free.trans And.comm)
            rw [halves] at parent
            refine ⟨node, _, by rw [step, if_pos high, find],
              represents_markFreed positive space before other repFreed,
              outside.right.trans (sameOutside_markFreed mem' _ _ positive), ?_⟩
            rw [passes, parent, Buddy.full, Bool.and_comm]

end Sealloc
