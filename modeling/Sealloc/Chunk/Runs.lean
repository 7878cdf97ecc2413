import Sealloc.Chunk.States

/-! The runs of a chunk by address: what `chunk_deallocate_run` and `chunk_get_run_ptr` do. -/

namespace Sealloc

open Library

/-- A run by its first byte and its number of bytes. -/
structure ChunkRun where
  ptr : Nat
  size : Nat
  deriving DecidableEq, Repr

namespace ChunkRun

def Apart (first second : ChunkRun) : Prop :=
  first.ptr + first.size ≤ second.ptr ∨ second.ptr + second.size ≤ first.ptr

def Holds (run : ChunkRun) (addr : Nat) : Prop := run.ptr ≤ addr ∧ addr < run.ptr + run.size

end ChunkRun

namespace Chunk

/-- The bytes under a node of a chunk that starts at `key`. -/
def nodeRun (key n : Nat) : ChunkRun :=
  ⟨key + nodeOffset n * chunkLeastRegionSizeBytes, nodeUnits n * chunkLeastRegionSizeBytes⟩

theorem leastRegion : chunkLeastRegionSizeBytes = 16384 := rfl

section Geometry

variable {key m n : Nat}

theorem nodeUnits_pos (n : Nat) : 0 < nodeUnits n := Nat.two_pow_pos _

theorem nodeRun_bounds (key : Nat) (node : IsNode n) :
    key ≤ (nodeRun key n).ptr ∧
      (nodeRun key n).ptr + (nodeRun key n).size ≤ key + chunkSizeBytes ∧
      0 < (nodeRun key n).size := by
  obtain ⟨d, deep, level⟩ := node.level
  obtain ⟨-, units, last⟩ := node_leaves level deep
  have positive := nodeUnits_pos n
  unfold nodeRun chunkSizeBytes
  rw [leastRegion]
  simp only
  omega

/-- A leaf lies under a node when its offset lies in the node's span. -/
theorem leaf_below (node : IsNode n) {leaf : Nat} (isLeaf : InLevel 11 leaf) :
    Below n leaf ↔ nodeOffset n ≤ leaf - 2048 ∧ leaf - 2048 < nodeOffset n + nodeUnits n := by
  obtain ⟨d, deep, level⟩ := node.level
  obtain ⟨first, units, -⟩ := node_leaves level deep
  have low := isLeaf.1
  have span := comparable_down level isLeaf deep
  have oneWay : Comparable n leaf ↔ Below n leaf := by
    constructor
    · rintro (below | above)
      · exact below
      · obtain ⟨le, up⟩ := below_level isLeaf level above
        have same : d = 11 := by omega
        rw [same, Nat.sub_self, Nat.pow_zero, Nat.div_one] at up
        rw [up]
        exact below_refl leaf
    · exact fun below => Or.inl below
  rw [← oneWay, span, Nat.succ_mul, first, units]
  omega

theorem exists_leaf (node : IsNode n) : ∃ leaf, InLevel 11 leaf ∧ Below n leaf := by
  obtain ⟨d, deep, level⟩ := node.level
  obtain ⟨first, units, last⟩ := node_leaves level deep
  have positive := nodeUnits_pos n
  exact ⟨n * 2 ^ (11 - d), ⟨by omega, by omega⟩, 11 - d,
    Nat.mul_div_cancel _ (Nat.two_pow_pos _)⟩

/-- Nodes that do not meet have disjoint bytes. -/
theorem nodeRun_apart (one : IsNode m) (two : IsNode n) :
    (nodeRun key m).Apart (nodeRun key n) ↔ ¬ Comparable m n := by
  constructor
  · rintro apart meet
    have common : ∃ leaf, InLevel 11 leaf ∧ Below m leaf ∧ Below n leaf := by
      rcases meet with below | above
      · obtain ⟨leaf, isLeaf, under⟩ := exists_leaf two
        exact ⟨leaf, isLeaf, below_trans below under, under⟩
      · obtain ⟨leaf, isLeaf, under⟩ := exists_leaf one
        exact ⟨leaf, isLeaf, under, below_trans above under⟩
    obtain ⟨leaf, isLeaf, underM, underN⟩ := common
    have inM := (leaf_below one isLeaf).mp underM
    have inN := (leaf_below two isLeaf).mp underN
    unfold ChunkRun.Apart nodeRun at apart
    rw [leastRegion] at apart
    simp only at apart
    omega
  · intro notMeet
    by_contra overlap
    unfold ChunkRun.Apart nodeRun at overlap
    rw [leastRegion] at overlap
    simp only at overlap
    obtain ⟨d, deep, level⟩ := one.level
    obtain ⟨e, deep', level'⟩ := two.level
    obtain ⟨-, -, lastM⟩ := node_leaves level deep
    obtain ⟨-, -, lastN⟩ := node_leaves level' deep'
    have someM := nodeUnits_pos m
    have someN := nodeUnits_pos n
    have isLeaf : InLevel 11 (2048 + max (nodeOffset m) (nodeOffset n)) := by
      constructor <;> omega
    have underM : Below m (2048 + max (nodeOffset m) (nodeOffset n)) :=
      (leaf_below one isLeaf).mpr (by omega)
    have underN : Below n (2048 + max (nodeOffset m) (nodeOffset n)) :=
      (leaf_below two isLeaf).mpr (by omega)
    exact notMeet (below_linear underM underN)

/-- The node that the bytes of an allocation stand for. -/
theorem nodeRun_eq {level : Nat} (node : InLevel level n) (deep : level ≤ 11) :
    nodeRun key n = ⟨key + (n * 2 ^ (11 - level) - 2048) * chunkLeastRegionSizeBytes,
      chunkLeastRegionSizeBytes * 2 ^ (11 - level)⟩ := by
  obtain ⟨first, units, -⟩ := node_leaves node deep
  rw [nodeRun, units, first, Nat.add_sub_cancel_left, Nat.mul_comm (2 ^ (11 - level))]

end Geometry

section Operations

variable {ck : Chunk} {live dead : List Nat} {n : Nat}

/-- No other live run is above or below the freed one. -/
theorem ChunkInv.erase_apart (inv : ChunkInv ck live dead) (member : n ∈ live) :
    ∀ m ∈ live.erase n, ¬ Comparable m n := by
  intro m stays meet
  have same := inv.same (List.mem_append_left _ (List.mem_of_mem_erase stays))
    (List.mem_append_left _ member) meet
  rw [same] at stays
  exact inv.nodup.not_mem_erase stays

/-- The sibling of a run is not depleted, so that the first loop of `chunk_deallocate_run` ends at
once. -/
theorem coalesceDepleted_stays (inv : ChunkInv ck live dead) (member : n ∈ live)
    (size ptr : Nat) :
    coalesceLoop .depleted chunkBuddyTreeDepth ⟨n, size, ptr⟩
      (setBuddyTreeItem ck.buddyTree n .depleted) =
      (⟨n, size, ptr⟩, setBuddyTreeItem ck.buddyTree n .depleted) := by
  have node := inv.isNode member
  have bounds := inv.nodes n (List.mem_append_left _ member)
  have sibling : getBuddyTreeItem (setBuddyTreeItem ck.buddyTree n .depleted) (neighIdx n) ≠
      .depleted := by
    have other := neighIdx_isNode node (by omega)
    rw [getBuddyTreeItem_set _ _ other.1 node.1, if_neg]
    · exact inv.states.depleted _ other
    · intro same
      exact neighIdx_notAbove (c := n) (by omega) (by
        rw [same]
        exact below_refl n)
  rw [show chunkBuddyTreeDepth = 10 + 1 from rfl, coalesceLoop, if_pos (by simp only; omega),
    if_neg sibling]

/-- The tree in which the node of a run is marked unmapped, before its parents are. -/
theorem ChunkInv.marked (inv : ChunkInv ck live dead) (member : n ∈ live) :
    Pass (live.erase n) dead n
      (setBuddyTreeItem (setBuddyTreeItem ck.buddyTree n .depleted) n .unmapped) n := by
  have node := inv.isNode member
  have set := fun (mem : Nat → Byte) (state : ChunkNode) m (other : IsNode m) =>
    getBuddyTreeItem_set mem state other.1 node.1
  refine ⟨below_refl n, node, .run List.mem_cons_self, ?_, ?_, ?_, ?_⟩
  · intro m other
    rw [set _ _ m other]
    by_cases same : m = n
    · rw [if_pos same]
      constructor
      · intro impossible
        simp at impossible
      · intro left
        rw [same] at left
        exact absurd left inv.nodup.not_mem_erase
    · rw [if_neg same, set _ _ m other, if_neg same, inv.states.used m other]
      exact (List.mem_erase_of_ne same).symm
  · intro m other
    rw [set _ _ m other]
    by_cases same : m = n
    · simp [same]
    · rw [if_neg same, set _ _ m other, if_neg same]
      exact inv.states.depleted m other
  · intro m other notAbove
    rw [set _ _ m other]
    by_cases same : m = n
    · rw [if_pos same, same]
      exact ⟨fun _ => .run List.mem_cons_self, fun _ => rfl⟩
    · rw [if_neg same, set _ _ m other, if_neg same, inv.states.unmapped m other]
      exact ⟨fun gone => gone.mono,
        fun gone => gone.of_cons fun above => notAbove ⟨above, same⟩⟩
  · intro m other above strict unmapped
    rw [set _ _ m other, if_neg strict, set _ _ m other, if_neg strict] at unmapped
    exact inv.live_notGone member (Or.inl above) ((inv.states.unmapped m other).mp unmapped)

/-- The runs stay the same when a live one becomes a dead one. -/
theorem ChunkInv.moved (inv : ChunkInv ck live dead) (member : n ∈ live) {tree : Nat → Byte}
    (states : TreeStates tree (live.erase n) (n :: dead)) :
    ChunkInv { ck with buddyTree := tree } (live.erase n) (n :: dead) := by
  have moved : (live ++ dead).Perm (live.erase n ++ n :: dead) :=
    ((List.perm_cons_erase member).append_right dead).trans List.perm_middle.symm
  refine ⟨?_, ?_, ?_, states⟩
  · intro m inside
    exact inv.nodes m (moved.mem_iff.mpr inside)
  · exact (moved.pairwise_iff fun {_ _} notMeet meet => notMeet (comparable_symm meet)).mp
      inv.apart
  · refine ⟨⟨inv.index.root.next, inv.index.root.prev, inv.index.root.first⟩, ?_⟩
    intro d low high
    refine (inv.index.levels d low high).congr ?_ (fun _ _ => rfl) rfl rfl
    intro i
    unfold Avail
    refine and_congr_right fun _ => ?_
    exact ⟨fun none m inside => none m (moved.mem_iff.mp inside),
      fun none m inside => none m (moved.mem_iff.mpr inside)⟩

/-- `chunk_deallocate_run` of a live run unmaps the bytes of that run and marks it. -/
theorem chunkDeallocateRun_ok (inv : ChunkInv ck live dead) (member : n ∈ live) :
    ∃ d, chunkDeallocateRun ck (nodeRun ck.key n).ptr = some d ∧
      d.unmapPtr = (nodeRun ck.key n).ptr ∧ d.unmapSize = (nodeRun ck.key n).size ∧
      ChunkInv d.chunk (live.erase n) (n :: dead) ∧
      (d.whole = true ↔ Gone (n :: dead) 1) ∧
      d.chunk.key = ck.key ∧ d.chunk.regSizeSmallMedium = ck.regSizeSmallMedium ∧
      d.chunk.availNodesCount = ck.availNodesCount := by
  have node := inv.isNode member
  obtain ⟨level, deep, inLevel⟩ := node.level
  obtain ⟨first, units, last⟩ := node_leaves inLevel deep
  have positive := nodeUnits_pos n
  have leaf : (chunkNoNodes + 1) / 2 + ((nodeRun ck.key n).ptr - ck.key) /
      chunkLeastRegionSizeBytes = n * 2 ^ (11 - level) := by
    rw [show (chunkNoNodes + 1) / 2 = 2048 by decide, first, nodeRun, leastRegion]
    simp only
    omega
  have size : (nodeRun ck.key n).size = chunkLeastRegionSizeBytes * 2 ^ (11 - level) := by
    rw [nodeRun, units]
    exact Nat.mul_comm _ _
  have found := climb_live inv member (11 - level) (chunkBuddyTreeDepth + 1)
    chunkLeastRegionSizeBytes (by unfold chunkBuddyTreeDepth; omega) (by omega)
  have stays := coalesceDepleted_stays inv member
    (chunkLeastRegionSizeBytes * 2 ^ (11 - level)) (nodeRun ck.key n).ptr
  obtain ⟨states, whole⟩ := coalesce_ok (inv.erase_apart member)
    (fun m above => inv.live_notGone member (Or.inl above)) chunkBuddyTreeDepth
    ⟨n, chunkLeastRegionSizeBytes * 2 ^ (11 - level), (nodeRun ck.key n).ptr⟩ _ level
    (inv.marked member) inLevel deep
  rw [chunkDeallocateRun]
  simp only [leaf, found, stays, coalesceUnmappedNodes]
  refine ⟨_, rfl, rfl, size.symm, inv.moved member states, ?_, rfl, rfl, rfl⟩
  rw [← whole]
  simp

/-- The region size that `chunk_get_run_ptr` reports for the run on a node. -/
def reportedSize (ck : Chunk) (n : Nat) : Nat :=
  if 2048 ≤ n then
    (if ck.regSizeSmallMedium (n - 2048) ≠ regMarkBadValue then ck.regSizeSmallMedium (n - 2048)
    else 0)
  else 0

/-- A run of which the first 16 KiB hold a pointer starts at the pointer's leaf. -/
theorem ChunkInv.run_starts (inv : ChunkInv ck live dead) (member : n ∈ live) {ptr : Nat}
    (low : (nodeRun ck.key n).ptr ≤ ptr)
    (high : ptr < (nodeRun ck.key n).ptr + chunkLeastRegionSizeBytes) :
    ∃ level, level ≤ 11 ∧ InLevel level n ∧
      n * 2 ^ (11 - level) = 2048 + (ptr - ck.key) / 16384 ∧
      (nodeRun ck.key n).ptr = ck.key + (ptr - ck.key) / 16384 * 16384 ∧
      (nodeRun ck.key n).size = 16384 * 2 ^ (11 - level) := by
  obtain ⟨level, deep, inLevel⟩ := (inv.isNode member).level
  obtain ⟨first, units, last⟩ := node_leaves inLevel deep
  unfold nodeRun at low high
  rw [leastRegion] at low high
  simp only at low high
  refine ⟨level, deep, inLevel, ?_, ?_, ?_⟩
  · omega
  · unfold nodeRun
    rw [leastRegion]
    simp only
    omega
  · rw [nodeRun, units, leastRegion]
    exact Nat.mul_comm _ _

/-- The runs of a chunk are inside it. -/
theorem ChunkInv.run_inside (inv : ChunkInv ck live dead) (member : n ∈ live) {ptr : Nat}
    (low : (nodeRun ck.key n).ptr ≤ ptr)
    (high : ptr < (nodeRun ck.key n).ptr + chunkLeastRegionSizeBytes) :
    ck.key ≤ ptr ∧ ptr < ck.key + chunkSizeBytes := by
  have bounds := nodeRun_bounds ck.key (inv.isNode member)
  obtain ⟨level, deep, inLevel⟩ := (inv.isNode member).level
  obtain ⟨first, units, last⟩ := node_leaves inLevel deep
  have positive := nodeUnits_pos n
  unfold nodeRun at low high bounds
  rw [leastRegion] at low high bounds
  simp only at low high bounds
  omega

section Leaf

variable {ptr : Nat}

theorem leaf_inLevel (low : ck.key ≤ ptr) (high : ptr < ck.key + chunkSizeBytes) :
    InLevel 11 (2048 + (ptr - ck.key) / 16384) := by
  unfold chunkSizeBytes at high
  constructor <;> omega

theorem leaf_nodeRun (leaf : InLevel 11 (2048 + (ptr - ck.key) / 16384)) :
    nodeRun ck.key (2048 + (ptr - ck.key) / 16384) =
      ⟨ck.key + (ptr - ck.key) / 16384 * 16384, 16384⟩ := by
  rw [nodeRun_eq leaf (Nat.le_refl 11), leastRegion]
  simp

/-- A run on a leaf that holds the pointer is the only one. -/
theorem leaf_only (inv : ChunkInv ck live dead)
    (member : 2048 + (ptr - ck.key) / 16384 ∈ live) (isLive : n ∈ live)
    (low : (nodeRun ck.key n).ptr ≤ ptr)
    (high : ptr < (nodeRun ck.key n).ptr + chunkLeastRegionSizeBytes) :
    n = 2048 + (ptr - ck.key) / 16384 := by
  obtain ⟨level, deep, inLevel, leaf, -⟩ := inv.run_starts isLive low high
  have under : Comparable n (2048 + (ptr - ck.key) / 16384) := by
    refine Or.inl ⟨11 - level, ?_⟩
    rw [← leaf]
    exact Nat.mul_div_cancel _ (Nat.two_pow_pos _)
  exact inv.same (List.mem_append_left _ isLive) (List.mem_append_left _ member) under

/-- What `chunk_get_run_ptr` reports of a run on a leaf. -/
theorem getRunPtr_leaf (inv : ChunkInv ck live dead)
    (leaf : InLevel 11 (2048 + (ptr - ck.key) / 16384)) (low : ck.key ≤ ptr)
    (member : 2048 + (ptr - ck.key) / 16384 ∈ live) (info : RunInfo) :
    (⟨ck.key + (ptr - ck.key) / 16384 * 16384, 16384,
      if ck.regSizeSmallMedium ((ptr - ck.key) / 16384) ≠ regMarkBadValue then
        ck.regSizeSmallMedium ((ptr - ck.key) / 16384)
      else 0⟩ : RunInfo) = info ↔
      ∃ n ∈ live, (nodeRun ck.key n).ptr ≤ ptr ∧
        ptr < (nodeRun ck.key n).ptr + chunkLeastRegionSizeBytes ∧
        info = ⟨(nodeRun ck.key n).ptr, (nodeRun ck.key n).size, reportedSize ck n⟩ := by
  have leafRun := leaf_nodeRun leaf
  have reported : reportedSize ck (2048 + (ptr - ck.key) / 16384) =
      if ck.regSizeSmallMedium ((ptr - ck.key) / 16384) ≠ regMarkBadValue then
        ck.regSizeSmallMedium ((ptr - ck.key) / 16384)
      else 0 := by
    rw [reportedSize, if_pos (by omega), Nat.add_sub_cancel_left]
  constructor
  · rintro rfl
    refine ⟨_, member, ?_, ?_, ?_⟩
    · rw [leafRun]
      simp only
      omega
    · rw [leafRun, leastRegion]
      simp only
      omega
    · rw [reported, leafRun]
  · rintro ⟨n, isLive, low, high, rfl⟩
    rw [leaf_only inv member isLive low high, reported, leafRun]

/-- A node above the leaves has a run of its own size there. -/
theorem inner_notLeaf (inv : ChunkInv ck live dead)
    (leaf : InLevel 11 (2048 + (ptr - ck.key) / 16384))
    (unused : getBuddyTreeItem ck.buddyTree (2048 + (ptr - ck.key) / 16384) ≠ .used)
    (member : n ∈ live) {level : Nat} (inLevel : InLevel level n)
    (under : n * 2 ^ (11 - level) = 2048 + (ptr - ck.key) / 16384) : ¬ 2048 ≤ n := by
  intro isLeaf
  have same : level = 11 := inLevel.unique ⟨isLeaf, (inv.isNode member).2⟩
  rw [same, Nat.sub_self, Nat.pow_zero, Nat.mul_one] at under
  rw [under] at member
  exact unused ((inv.states.used _ ⟨by omega, leaf.2⟩).mpr member)

/-- The walk up from a leaf that no run is on finds the run of a larger node. -/
theorem getRunPtr_inner (inv : ChunkInv ck live dead)
    (leaf : InLevel 11 (2048 + (ptr - ck.key) / 16384)) (low : ck.key ≤ ptr)
    (unused : getBuddyTreeItem ck.buddyTree (2048 + (ptr - ck.key) / 16384) ≠ .used)
    {top total : Nat} (climbed : climb ck.buddyTree (chunkBuddyTreeDepth + 1)
      (2048 + (ptr - ck.key) / 16384) 16384 = some (top, total)) :
    top ∈ live ∧ (nodeRun ck.key top).ptr ≤ ptr ∧
      ptr < (nodeRun ck.key top).ptr + chunkLeastRegionSizeBytes ∧
      (⟨ck.key + (ptr - ck.key) / 16384 * 16384, total, 0⟩ : RunInfo) =
        ⟨(nodeRun ck.key top).ptr, (nodeRun ck.key top).size, reportedSize ck top⟩ := by
  have isNode : IsNode (2048 + (ptr - ck.key) / 16384) := ⟨by omega, leaf.2⟩
  obtain ⟨member, height, reach, size⟩ := climb_some inv _ _ _ _ _ isNode climbed
  obtain ⟨level, deep, inLevel⟩ := (inv.isNode member).level
  have levelEq : level + height = 11 := by
    refine InLevel.unique ⟨?_, ?_⟩ (reach ▸ leaf)
    · rw [Nat.pow_add]
      exact Nat.mul_le_mul_right _ inLevel.1
    · rw [show level + height + 1 = level + 1 + height by omega, Nat.pow_add]
      exact Nat.mul_lt_mul_of_pos_right inLevel.2 (Nat.two_pow_pos _)
  have heightEq : height = 11 - level := by omega
  rw [heightEq] at reach size
  have run : nodeRun ck.key top =
      ⟨ck.key + (ptr - ck.key) / 16384 * 16384, 16384 * 2 ^ (11 - level)⟩ := by
    rw [nodeRun_eq inLevel deep, ← reach, leastRegion]
    simp
  have notLeaf := inner_notLeaf inv leaf unused member inLevel reach.symm
  refine ⟨member, ?_, ?_, ?_⟩
  · rw [run]
    simp only
    omega
  · rw [run, leastRegion]
    simp only
    omega
  · rw [run, size, reportedSize, if_neg notLeaf]

end Leaf

/-- `chunk_get_run_ptr` finds a run exactly when the pointer is in the first 16 KiB of a live
run. -/
theorem chunkGetRunPtr_iff (inv : ChunkInv ck live dead) (ptr : Nat) (info : RunInfo) :
    chunkGetRunPtr ck ptr = some info ↔
      ∃ n ∈ live, (nodeRun ck.key n).ptr ≤ ptr ∧
        ptr < (nodeRun ck.key n).ptr + chunkLeastRegionSizeBytes ∧
        info = ⟨(nodeRun ck.key n).ptr, (nodeRun ck.key n).size, reportedSize ck n⟩ := by
  have firstLeaf : (chunkNoNodes + 1) / 2 = 2048 := by decide
  by_cases outside : ptr < ck.key ∨ ck.key + chunkSizeBytes ≤ ptr
  · rw [chunkGetRunPtr, if_pos outside]
    constructor
    · intro impossible
      simp at impossible
    · rintro ⟨n, member, low, high, -⟩
      have inside := inv.run_inside member low high
      omega
  · have leaf : InLevel 11 (2048 + (ptr - ck.key) / 16384) := leaf_inLevel (by omega) (by omega)
    rw [chunkGetRunPtr, if_neg outside]
    simp only [firstLeaf, leastRegion]
    by_cases used : getBuddyTreeItem ck.buddyTree (2048 + (ptr - ck.key) / 16384) = .used
    · have member := (inv.states.used _ ⟨by omega, leaf.2⟩).mp used
      rw [if_neg (fun notUsed => notUsed used), Option.some.injEq]
      exact getRunPtr_leaf inv leaf (by omega) member info
    · rw [if_pos used]
      constructor
      · intro found
        cases climbed : climb ck.buddyTree (chunkBuddyTreeDepth + 1)
            (2048 + (ptr - ck.key) / 16384) 16384 with
        | none =>
            rw [climbed] at found
            simp at found
        | some result =>
            rw [climbed] at found
            have inner := getRunPtr_inner inv leaf (by omega) used climbed
            exact ⟨_, inner.1, inner.2.1, inner.2.2.1,
              (Option.some.inj found).symm.trans inner.2.2.2⟩
      · rintro ⟨n, isLive, low, high, rfl⟩
        obtain ⟨level, deep, inLevel, under, ptrEq, sizeEq⟩ := inv.run_starts isLive low high
        have bound := leaf.2
        have found := climb_live inv isLive (11 - level) (chunkBuddyTreeDepth + 1) 16384
          (by unfold chunkBuddyTreeDepth; omega) (by omega)
        have notLeaf := inner_notLeaf inv leaf used isLive inLevel under
        rw [under] at found
        rw [found, ptrEq, sizeEq, reportedSize, if_neg notLeaf]

end Operations

end Chunk

end Sealloc
