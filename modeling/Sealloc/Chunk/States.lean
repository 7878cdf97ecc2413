import Sealloc.Chunk.Index

/-! The node states of a chunk: used nodes are the live runs, unmapped nodes are the ones
whose runs are all gone, and every other node is free. -/

namespace Sealloc

open Library

theorem ChunkNode.ofByte_code (node : ChunkNode) :
    ChunkNode.ofByte (BitVec.ofNat 8 node.code.val) = node := by
  cases node <;> rfl

namespace Chunk

theorem getBuddyTreeItem_set (mem : Nat → Byte) {i j : Nat} (node : ChunkNode) (hi : 0 < i)
    (hj : 0 < j) : getBuddyTreeItem (setBuddyTreeItem mem j node) i =
      if i = j then node else getBuddyTreeItem mem i := by
  unfold getBuddyTreeItem setBuddyTreeItem
  split
  · next same => rw [same, getCrumb_setCrumb_same, ChunkNode.ofByte_code]
  · next different => rw [getCrumb_setCrumb_other _ _ (by omega)]

/-- Every run under the node is dead, and the node is not strictly inside a run. -/
inductive Gone (dead : List Nat) : Nat → Prop
  | run {n : Nat} (member : n ∈ dead) : Gone dead n
  | both {n : Nat} (left : Gone dead (n * 2)) (right : Gone dead (n * 2 + 1)) : Gone dead n

section Gone

variable {dead : List Nat} {m n : Nat}

theorem comparable_refl (n : Nat) : Comparable n n := Or.inl (below_refl n)

theorem comparable_symm (comparable : Comparable m n) : Comparable n m := Or.symm comparable

/-- A gone node has a dead run under it. -/
theorem Gone.exists_below (gone : Gone dead n) : ∃ run ∈ dead, Below n run := by
  induction gone with
  | run member => exact ⟨_, member, below_refl _⟩
  | both left right ihl ihr =>
      obtain ⟨run, member, below⟩ := ihl
      exact ⟨run, member, below_left below⟩

/-- Whatever is under a gone node meets a dead run. -/
theorem Gone.meets (gone : Gone dead m) (below : Below m n) :
    ∃ run ∈ dead, Comparable run n := by
  induction gone generalizing n with
  | run member => exact ⟨_, member, Or.inl below⟩
  | @both m left right ihl ihr =>
      rcases below_cases below with rfl | below | below
      · obtain ⟨run, member, under⟩ := left.exists_below
        exact ⟨run, member, Or.inr (below_left under)⟩
      · exact ihl below
      · exact ihr below

theorem Gone.mono (gone : Gone dead m) : Gone (n :: dead) m := by
  induction gone with
  | run member => exact .run (List.mem_cons_of_mem _ member)
  | both left right ihl ihr => exact .both ihl ihr

/-- A further dead run matters to its ancestors only. -/
theorem Gone.of_cons (gone : Gone (n :: dead) m) (off : ¬ Below m n) : Gone dead m := by
  induction gone with
  | run member =>
      rcases List.mem_cons.mp member with rfl | member
      · exact absurd (below_refl _) off
      · exact .run member
  | both left right ihl ihr =>
      exact .both (ihl fun below => off (below_left below))
        (ihr fun below => off (below_right below))

/-- Above a node whose sibling is not gone, the run `n` under the node changes nothing. -/
theorem Gone.of_cons_above {c : Nat} (gone : Gone (n :: dead) m) (positive : 0 < m)
    (under : Below c n) (above : Below m c) (strict : m ≠ c)
    (sibling : ¬ Gone (n :: dead) (neighIdx c)) : Gone dead m := by
  induction gone with
  | @run m member =>
      rcases List.mem_cons.mp member with rfl | member
      · have low := below_le above
        have high := below_le under
        omega
      · exact .run member
  | @both m left right ihl ihr =>
      rcases below_cases above with rfl | inLeft | inRight
      · exact absurd rfl strict
      · have offRight : ¬ Below (m * 2 + 1) n := fun below =>
          below_children_apart positive (below_trans inLeft under) below
        refine .both ?_ (right.of_cons offRight)
        refine ihl (by omega) inLeft ?_
        rintro rfl
        have other : neighIdx (m * 2) = m * 2 + 1 := by
          unfold neighIdx
          rw [if_neg (by omega)]
        rw [other] at sibling
        exact sibling right
      · have offLeft : ¬ Below (m * 2) n := fun below =>
          below_children_apart positive below (below_trans inRight under)
        refine .both (left.of_cons offLeft) (ihr (by omega) inRight ?_)
        rintro rfl
        have other : neighIdx (m * 2 + 1) = m * 2 := by
          unfold neighIdx
          rw [if_pos (by omega)]
          omega
        rw [other] at sibling
        exact sibling left

end Gone

/-- The index of a node of the tree. -/
def IsNode (n : Nat) : Prop := 0 < n ∧ n < 4096

structure TreeStates (mem : Nat → Byte) (live dead : List Nat) : Prop where
  used : ∀ n, IsNode n → (getBuddyTreeItem mem n = .used ↔ n ∈ live)
  unmapped : ∀ n, IsNode n → (getBuddyTreeItem mem n = .unmapped ↔ Gone dead n)
  depleted : ∀ n, IsNode n → getBuddyTreeItem mem n ≠ .depleted

/-- A chunk whose live and dead runs stand on the given nodes. -/
structure ChunkInv (ck : Chunk) (live dead : List Nat) : Prop where
  nodes : ∀ n ∈ live ++ dead, 2 ≤ n ∧ n < 4096
  apart : (live ++ dead).Pairwise fun m n => ¬ Comparable m n
  index : FreeIndex ck (live ++ dead)
  states : TreeStates ck.buddyTree live dead

theorem chunkInit_inv (ck : Chunk) (heap : Nat) :
    ChunkInv (chunkInit .wrapping ck heap) [] [] := by
  obtain ⟨short, index, -, -, tree⟩ := chunkInit_ok Short.wrapping_lawful ck heap
  rw [short]
  have free : ∀ n, getBuddyTreeItem (chunkInit .unbounded ck heap).buddyTree n = .free := by
    intro n
    rw [tree]
    simp [getBuddyTreeItem, getCrumb, ChunkNode.ofByte]
  refine ⟨by simp, by simp, index, ?_, ?_, ?_⟩
  · intro n node
    simp [free]
  · intro n node
    rw [free]
    constructor
    · intro impossible
      simp at impossible
    · intro gone
      obtain ⟨run, member, -⟩ := gone.exists_below
      simp at member
  · intro n node
    simp [free]

section Inv

variable {ck : Chunk} {live dead : List Nat} {m n : Nat}

/-- Two runs that meet are the same. -/
theorem ChunkInv.same (inv : ChunkInv ck live dead) (one : m ∈ live ++ dead)
    (two : n ∈ live ++ dead) (meet : Comparable m n) : m = n := by
  by_contra different
  have symmetric : Std.Symm fun a b => ¬ Comparable a b :=
    ⟨fun _ _ notMeet meet => notMeet (comparable_symm meet)⟩
  exact inv.apart.forall one two different meet

theorem ChunkInv.live_notDead (inv : ChunkInv ck live dead) (one : m ∈ live) (two : n ∈ dead) :
    ¬ Comparable m n := by
  intro meet
  exact (List.pairwise_append.mp inv.apart).2.2 m one n two meet

theorem ChunkInv.nodup (inv : ChunkInv ck live dead) : live.Nodup := by
  have apart := (List.pairwise_append.mp inv.apart).1
  refine apart.imp fun {a b} notMeet => ?_
  rintro rfl
  exact notMeet (comparable_refl a)

theorem ChunkInv.isNode (inv : ChunkInv ck live dead) (member : n ∈ live) : IsNode n := by
  have bounds := inv.nodes n (List.mem_append_left _ member)
  exact ⟨by omega, bounds.2⟩

/-- Whatever meets a live run is not gone. -/
theorem ChunkInv.live_notGone (inv : ChunkInv ck live dead) (member : n ∈ live)
    (meet : Comparable m n) : ¬ Gone dead m := by
  intro gone
  rcases meet with below | above
  · obtain ⟨run, inDead, comparable⟩ := gone.meets below
    exact inv.live_notDead member inDead (comparable_symm comparable)
  · obtain ⟨run, inDead, below⟩ := gone.exists_below
    exact inv.live_notDead member inDead (Or.inl (below_trans above below))

/-- A new run on an available node. -/
theorem ChunkInv.allocate {ck' : Chunk} {level : Nat} (inv : ChunkInv ck live dead)
    (low : 1 ≤ level) (high : level ≤ 11) (avail : Avail (live ++ dead) level n)
    (index : FreeIndex ck' (n :: (live ++ dead)))
    (tree : ck'.buddyTree = setBuddyTreeItem ck.buddyTree n .used) :
    ChunkInv ck' (n :: live) dead := by
  have first : 2 ≤ n := by
    have wide : 2 ^ 1 ≤ 2 ^ level := Nat.pow_le_pow_right (by decide) low
    have := avail.1.1
    omega
  have last := avail.1.small high
  have fresh : n ∉ live := fun member =>
    avail.2 n (List.mem_append_left _ member) (comparable_refl n)
  refine ⟨?_, ?_, index, ?_, ?_, ?_⟩
  · intro m member
    rcases List.mem_cons.mp member with rfl | member
    · exact ⟨first, last⟩
    · exact inv.nodes m member
  · refine List.pairwise_cons.mpr ⟨?_, inv.apart⟩
    intro m member meet
    exact avail.2 m member (comparable_symm meet)
  · intro m node
    rw [tree, getBuddyTreeItem_set _ _ node.1 (by omega), List.mem_cons]
    by_cases same : m = n
    · simp [same]
    · rw [if_neg same, inv.states.used m node]
      simp [same]
  · intro m node
    rw [tree, getBuddyTreeItem_set _ _ node.1 (by omega)]
    by_cases same : m = n
    · subst same
      rw [if_pos rfl]
      constructor
      · intro impossible
        simp at impossible
      · intro gone
        obtain ⟨run, member, below⟩ := gone.exists_below
        exact absurd (Or.inr below) (avail.2 run (List.mem_append_right _ member))
    · rw [if_neg same]
      exact inv.states.unmapped m node
  · intro m node
    rw [tree, getBuddyTreeItem_set _ _ node.1 (by omega)]
    split
    · simp
    · exact inv.states.depleted m node

end Inv

section Climb

variable {ck : Chunk} {live dead : List Nat} {n : Nat}

/-- From the first leaf of a live run the walk up ends at the run. -/
theorem climb_live (inv : ChunkInv ck live dead) (member : n ∈ live) (height : Nat) :
    ∀ rounds size, height < rounds → n * 2 ^ height < 4096 →
      climb ck.buddyTree rounds (n * 2 ^ height) size = some (n, size * 2 ^ height) := by
  have bounds := inv.nodes n (List.mem_append_left _ member)
  induction height with
  | zero =>
      intro rounds size enough inTree
      obtain ⟨rounds, rfl⟩ : ∃ r, rounds = r + 1 := ⟨rounds - 1, by omega⟩
      have used := (inv.states.used n (inv.isNode member)).mpr member
      simp [climb, used]
  | succ height ih =>
      intro rounds size enough inTree
      obtain ⟨rounds, rfl⟩ : ∃ r, rounds = r + 1 := ⟨rounds - 1, by omega⟩
      have width : 0 < 2 ^ height := Nat.two_pow_pos height
      have even : n * 2 ^ (height + 1) = n * 2 ^ height * 2 := by
        rw [Nat.pow_succ, Nat.mul_assoc]
      have large : n ≤ n * 2 ^ height := Nat.le_mul_of_pos_right n width
      have node : IsNode (n * 2 ^ (height + 1)) := ⟨by omega, inTree⟩
      have under : Below n (n * 2 ^ (height + 1)) :=
        ⟨height + 1, Nat.mul_div_cancel _ (Nat.two_pow_pos _)⟩
      have notUsed : getBuddyTreeItem ck.buddyTree (n * 2 ^ (height + 1)) ≠ .used := by
        intro used
        have isLive := (inv.states.used _ node).mp used
        have same := inv.same (List.mem_append_left _ member) (List.mem_append_left _ isLive)
          (Or.inl under)
        omega
      have notUnmapped : getBuddyTreeItem ck.buddyTree (n * 2 ^ (height + 1)) ≠ .unmapped := by
        intro unmapped
        exact inv.live_notGone member (Or.inr under) ((inv.states.unmapped _ node).mp unmapped)
      have notDepleted := inv.states.depleted _ node
      have up := ih rounds (size * 2) (by omega) (by omega)
      rw [climb, if_neg notUsed, if_neg (by omega), if_neg (by tauto), even,
        Nat.mul_div_cancel _ (by decide), up, Nat.pow_succ']
      rw [Nat.mul_assoc]

/-- The walk up only ends at a live run, of which it started at the first leaf. -/
theorem climb_some (inv : ChunkInv ck live dead) (rounds : Nat) :
    ∀ idx size top total, IsNode idx → climb ck.buddyTree rounds idx size = some (top, total) →
      top ∈ live ∧ ∃ height, idx = top * 2 ^ height ∧ total = size * 2 ^ height := by
  induction rounds with
  | zero =>
      intro idx size top total node found
      simp [climb] at found
  | succ rounds ih =>
      intro idx size top total node found
      rw [climb] at found
      by_cases used : getBuddyTreeItem ck.buddyTree idx = .used
      · rw [if_pos used, Option.some.injEq, Prod.mk.injEq] at found
        obtain ⟨rfl, rfl⟩ := found
        exact ⟨(inv.states.used idx node).mp used, 0, by simp, by simp⟩
      · rw [if_neg used] at found
        by_cases stop : idx = 1 ∨ idx % 2 = 1
        · rw [if_pos stop] at found
          simp at found
        · rw [if_neg stop] at found
          split at found
          · simp at found
          · obtain ⟨member, height, first, total'⟩ :=
              ih (idx / 2) (size * 2) top total ⟨by have := node.1; omega, by
                have := node.2
                omega⟩ found
            refine ⟨member, height + 1, ?_, ?_⟩
            · rw [Nat.pow_succ, ← Nat.mul_assoc, ← first]
              omega
            · rw [total', Nat.pow_succ', Nat.mul_assoc]

end Climb

/-- The offset of a node's first leaf. -/
def nodeOffset (n : Nat) : Nat := n * 2 ^ (11 - Nat.log2 n) - 2048

/-- The number of leaves under a node. -/
def nodeUnits (n : Nat) : Nat := 2 ^ (11 - Nat.log2 n)

section Geometry

variable {d n : Nat}

theorem InLevel.log2 (level : InLevel d n) : Nat.log2 n = d := by
  rw [Nat.log2_eq_iff (by have := level.positive; omega)]
  exact level

theorem IsNode.level (node : IsNode n) : ∃ d, d ≤ 11 ∧ InLevel d n := by
  have low : 2 ^ Nat.log2 n ≤ n := Nat.log2_self_le (by have := node.1; omega)
  have high : n < 2 ^ (Nat.log2 n + 1) := Nat.lt_log2_self
  have deep : Nat.log2 n < 12 :=
    (Nat.log2_lt (by have := node.1; omega)).mpr (by have := node.2; omega)
  exact ⟨Nat.log2 n, by omega, low, high⟩

/-- The leaves under a node. -/
theorem node_leaves (level : InLevel d n) (deep : d ≤ 11) :
    n * 2 ^ (11 - d) = 2048 + nodeOffset n ∧ nodeUnits n = 2 ^ (11 - d) ∧
      nodeOffset n + nodeUnits n ≤ 2048 := by
  have first : 2 ^ 11 ≤ n * 2 ^ (11 - d) := by
    calc 2 ^ 11 = 2 ^ d * 2 ^ (11 - d) := by
          rw [← Nat.pow_add]
          congr 1
          omega
      _ ≤ n * 2 ^ (11 - d) := Nat.mul_le_mul_right _ level.1
  have last : (n + 1) * 2 ^ (11 - d) ≤ 2 ^ 12 := by
    calc (n + 1) * 2 ^ (11 - d) ≤ 2 ^ (d + 1) * 2 ^ (11 - d) := Nat.mul_le_mul_right _ level.2
      _ = 2 ^ 12 := by
          rw [← Nat.pow_add]
          congr 1
          omega
  unfold nodeOffset nodeUnits
  rw [level.log2]
  rw [Nat.succ_mul] at last
  omega

end Geometry

section Reclaim

variable {live dead : List Nat} {n : Nat}

/-- The bytes of the tree during the upward pass of a deallocation of `n`, at the node `c`:
the marks up to `c` are final, and above `c` they are those from before. -/
structure Pass (live dead : List Nat) (n : Nat) (mem : Nat → Byte) (c : Nat) : Prop where
  under : Below c n
  node : IsNode c
  gone : Gone (n :: dead) c
  used : ∀ m, IsNode m → (getBuddyTreeItem mem m = .used ↔ m ∈ live)
  depleted : ∀ m, IsNode m → getBuddyTreeItem mem m ≠ .depleted
  reached : ∀ m, IsNode m → ¬ (Below m c ∧ m ≠ c) →
    (getBuddyTreeItem mem m = .unmapped ↔ Gone (n :: dead) m)
  above : ∀ m, IsNode m → Below m c → m ≠ c → getBuddyTreeItem mem m ≠ .unmapped

theorem neighIdx_isNode {c : Nat} (node : IsNode c) (large : 1 < c) : IsNode (neighIdx c) := by
  have := node.2
  unfold neighIdx IsNode
  split <;> omega

theorem neighIdx_notAbove {c : Nat} (large : 1 < c) : ¬ Below (neighIdx c) c := by
  intro below
  obtain ⟨depth, up⟩ := below
  have small : c / 2 ^ depth ≤ c := Nat.div_le_self _ _
  cases depth with
  | zero =>
      rw [Nat.pow_zero, Nat.div_one] at up
      unfold neighIdx at up
      split at up <;> omega
  | succ depth =>
      have half : c / 2 ^ (depth + 1) ≤ c / 2 := by
        rw [Nat.pow_succ', ← Nat.div_div_eq_div_mul]
        exact Nat.div_le_self _ _
      unfold neighIdx at up
      split at up <;> omega

/-- The pass moves to the parent when the sibling is gone as well. -/
theorem Pass.step {mem : Nat → Byte} {c : Nat} (pass : Pass live dead n mem c) (large : 1 < c)
    (sibling : getBuddyTreeItem mem (neighIdx c) = .unmapped)
    (notLive : ∀ m ∈ live, ¬ Comparable m n) :
    Pass live dead n (setBuddyTreeItem mem (c / 2) .unmapped) (c / 2) := by
  have inTree := pass.node.2
  have parent : IsNode (c / 2) := ⟨by omega, by omega⟩
  have siblingGone : Gone (n :: dead) (neighIdx c) :=
    (pass.reached _ (neighIdx_isNode pass.node large)
      fun both => neighIdx_notAbove large both.1).mp sibling
  have under : Below (c / 2) n := below_parent pass.under
  have gone : Gone (n :: dead) (c / 2) := by
    unfold neighIdx at siblingGone
    by_cases odd : c % 2 = 1
    · rw [if_pos odd] at siblingGone
      refine .both ?_ ?_
      · rwa [show c / 2 * 2 = c - 1 by omega]
      · rw [show c / 2 * 2 + 1 = c by omega]
        exact pass.gone
    · rw [if_neg odd] at siblingGone
      refine .both ?_ ?_
      · rw [show c / 2 * 2 = c by omega]
        exact pass.gone
      · rwa [show c / 2 * 2 + 1 = c + 1 by omega]
  have set := fun m (node : IsNode m) =>
    getBuddyTreeItem_set mem .unmapped node.1 parent.1
  refine ⟨under, parent, gone, ?_, ?_, ?_, ?_⟩
  · intro m node
    rw [set m node]
    by_cases same : m = c / 2
    · rw [if_pos same]
      constructor
      · intro impossible
        simp at impossible
      · intro member
        rw [same] at member
        exact absurd (Or.inl under) (notLive _ member)
    · rw [if_neg same]
      exact pass.used m node
  · intro m node
    rw [set m node]
    split
    · simp
    · exact pass.depleted m node
  · intro m node notAbove
    rw [set m node]
    by_cases same : m = c / 2
    · rw [if_pos same, same]
      exact ⟨fun _ => gone, fun _ => rfl⟩
    · rw [if_neg same]
      refine pass.reached m node fun both => notAbove ⟨?_, same⟩
      obtain ⟨depth, up⟩ := both.1
      cases depth with
      | zero =>
          rw [Nat.pow_zero, Nat.div_one] at up
          exact absurd up.symm both.2
      | succ depth =>
          refine ⟨depth, ?_⟩
          rw [Nat.div_div_eq_div_mul, ← Nat.pow_succ']
          exact up
  · intro m node above strict
    rw [set m node, if_neg strict]
    have le := below_le above
    exact pass.above m node (below_trans above ⟨1, by rw [Nat.pow_one]⟩) (by omega)

/-- Where the pass ends the marks are final. -/
theorem coalesce_ok (notLive : ∀ m ∈ live, ¬ Comparable m n)
    (notGone : ∀ m, Below m n → ¬ Gone dead m) (rounds : Nat) :
    ∀ (ctx : BuddyCtx) (mem : Nat → Byte) (d : Nat), Pass live dead n mem ctx.idx →
      InLevel d ctx.idx → d ≤ rounds →
      TreeStates (coalesceLoop .unmapped rounds ctx mem).2 live (n :: dead) ∧
        ((coalesceLoop .unmapped rounds ctx mem).1.idx = 1 ↔ Gone (n :: dead) 1) := by
  have finished : ∀ {mem : Nat → Byte}, Pass live dead n mem 1 →
      TreeStates mem live (n :: dead) := by
    intro mem pass
    refine ⟨pass.used, ?_, pass.depleted⟩
    intro m node
    refine pass.reached m node fun both => ?_
    have := below_le both.1
    have := node.1
    exact both.2 (by omega)
  induction rounds with
  | zero =>
      intro ctx mem d pass level deep
      have top : ctx.idx = 1 := by
        obtain ⟨low, high⟩ := level
        rw [show d = 0 by omega] at low high
        omega
      rw [top] at pass
      exact ⟨finished pass, fun _ => pass.gone, fun _ => top⟩
  | succ rounds ih =>
      intro ctx mem d pass level deep
      rw [coalesceLoop]
      by_cases large : ctx.idx > 1
      · rw [if_pos large]
        by_cases sibling : getBuddyTreeItem mem (neighIdx ctx.idx) = .unmapped
        · rw [if_pos sibling]
          obtain ⟨d, rfl⟩ : ∃ e, d = e + 1 := by
            refine ⟨d - 1, ?_⟩
            have := level.2
            cases d with
            | zero => omega
            | succ d => rfl
          exact ih (buddyStateGoUp ctx) _ d (pass.step large sibling notLive) level.parent
            (by omega)
        · rw [if_neg sibling]
          have siblingStays : ¬ Gone (n :: dead) (neighIdx ctx.idx) := fun gone =>
            sibling ((pass.reached _ (neighIdx_isNode pass.node large)
              fun both => neighIdx_notAbove large both.1).mpr gone)
          have stays : ∀ m, IsNode m → Below m ctx.idx → m ≠ ctx.idx →
              ¬ Gone (n :: dead) m := by
            intro m node above strict gone
            exact notGone m (below_trans above pass.under)
              (gone.of_cons_above node.1 pass.under above strict siblingStays)
          refine ⟨⟨pass.used, ?_, pass.depleted⟩, ?_⟩
          · intro m node
            by_cases above : Below m ctx.idx ∧ m ≠ ctx.idx
            · exact ⟨fun unmapped => absurd unmapped (pass.above m node above.1 above.2),
                fun gone => absurd gone (stays m node above.1 above.2)⟩
            · exact pass.reached m node above
          · constructor
            · intro one
              simp only at one
              omega
            · intro gone
              refine absurd gone (stays 1 ⟨by decide, by decide⟩ ?_ (by omega))
              refine ⟨d, ?_⟩
              have low : 1 ≤ ctx.idx / 2 ^ d :=
                (Nat.le_div_iff_mul_le (Nat.two_pow_pos d)).mpr (by
                  rw [Nat.one_mul]
                  exact level.1)
              have high : ctx.idx / 2 ^ d < 2 :=
                (Nat.div_lt_iff_lt_mul (Nat.two_pow_pos d)).mpr (by
                  rw [← Nat.pow_succ']
                  exact level.2)
              omega
      · rw [if_neg large]
        have top : ctx.idx = 1 := by
          have := pass.node.1
          omega
        rw [top] at pass
        exact ⟨finished pass, fun _ => pass.gone, fun _ => top⟩

end Reclaim

end Chunk

end Sealloc
