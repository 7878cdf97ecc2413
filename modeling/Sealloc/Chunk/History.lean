import Sealloc.Chunk.Runs

/-! Chunks over any sequence of allocations and deallocations from `chunk_init` on. -/

namespace Sealloc

open Library Chunk

/-- A chunk together with its past: the runs ever returned, those still live, those
deallocated, and the ranges it has unmapped. -/
structure ChunkTrace where
  chunk : Chunk
  ever : List ChunkRun
  live : List ChunkRun
  freed : List ChunkRun
  unmaps : List ChunkRun

/-- The traces of a chunk that starts at `key`. -/
inductive ChunkReach (key : Nat) : ChunkTrace → Prop
  | init (ck : Chunk) : ChunkReach key ⟨chunkInit .wrapping ck key, [], [], [], []⟩
  | alloc {t : ChunkTrace} {k regSize ptr draws : Nat} {rand : Nat → Nat} {ck : Chunk}
      (before : ChunkReach key t) (small : k ≤ 10)
      (call : chunkAllocateRun .wrapping rand t.chunk (chunkLeastRegionSizeBytes * 2 ^ k)
        regSize = ⟨some ptr, ck, draws⟩) :
      ChunkReach key ⟨ck, ⟨ptr, chunkLeastRegionSizeBytes * 2 ^ k⟩ :: t.ever,
        ⟨ptr, chunkLeastRegionSizeBytes * 2 ^ k⟩ :: t.live, t.freed, t.unmaps⟩
  | refuse {t : ChunkTrace} {k regSize draws : Nat} {rand : Nat → Nat} {ck : Chunk}
      (before : ChunkReach key t) (small : k ≤ 10)
      (call : chunkAllocateRun .wrapping rand t.chunk (chunkLeastRegionSizeBytes * 2 ^ k)
        regSize = ⟨none, ck, draws⟩) :
      ChunkReach key { t with chunk := ck }
  | dealloc {t : ChunkTrace} {run : ChunkRun} {d : ChunkDealloc} (before : ChunkReach key t)
      (member : run ∈ t.live) (call : chunkDeallocateRun t.chunk run.ptr = some d) :
      ChunkReach key ⟨d.chunk, t.ever, t.live.erase run, run :: t.freed,
        ⟨d.unmapPtr, d.unmapSize⟩ :: t.unmaps⟩

/-- What every trace satisfies, for the nodes its live and deallocated runs stand on. -/
structure TraceInv (key : Nat) (t : ChunkTrace) (live dead : List Nat) : Prop where
  key_eq : t.chunk.key = key
  chunk : ChunkInv t.chunk live dead
  ever : t.ever.Perm ((live ++ dead).map (nodeRun key))
  live_eq : t.live.Perm (live.map (nodeRun key))
  freed : t.freed = dead.map (nodeRun key)
  unmaps : t.unmaps = dead.map (nodeRun key)

theorem TraceInv.live_node {key : Nat} {t : ChunkTrace} {live dead : List Nat}
    (inv : TraceInv key t live dead) {run : ChunkRun} (member : run ∈ t.live) :
    ∃ n ∈ live, nodeRun key n = run :=
  List.mem_map.mp (inv.live_eq.mem_iff.mp member)

theorem chunkReach_invariant {key : Nat} {t : ChunkTrace} (reach : ChunkReach key t) :
    ∃ live dead, TraceInv key t live dead := by
  induction reach with
  | init ck =>
      refine ⟨[], [], ?_, chunkInit_inv ck key, by simp, by simp, rfl, rfl⟩
      obtain ⟨short, -, keyEq, -⟩ := chunkInit_ok Short.wrapping_lawful ck key
      simp only [short, keyEq]
  | @alloc t k regSize ptr draws rand ck before small call ih =>
      obtain ⟨live, dead, inv⟩ := ih
      obtain ⟨short, cases⟩ := chunkAllocateRun_ok Short.wrapping_lawful
        inv.chunk.index small rand regSize
      rw [short] at call
      rcases cases with ⟨none, -⟩ | ⟨idx, out, draws', avail, result, index, takes⟩
      · rw [none] at call
        simp at call
      · rw [result] at call
        injection call with ptrEq ckEq
        injection ptrEq with ptrEq
        subst ptrEq
        subst ckEq
        have run : nodeRun key idx = ⟨out.1, chunkLeastRegionSizeBytes * 2 ^ k⟩ := by
          rw [nodeRun_eq avail.1 (by omega), takes.ptr, inv.key_eq,
            show 11 - (11 - k) = k by omega]
        refine ⟨idx :: live, dead, takes.key.trans inv.key_eq,
          inv.chunk.allocate (by omega) (by omega) avail index takes.tree, ?_, ?_,
          inv.freed, inv.unmaps⟩
        · simp only [List.cons_append, List.map_cons, run]
          exact inv.ever.cons _
        · simp only [List.map_cons, run]
          exact inv.live_eq.cons _
  | @refuse t k regSize draws rand ck before small call ih =>
      obtain ⟨live, dead, inv⟩ := ih
      obtain ⟨short, cases⟩ := chunkAllocateRun_ok Short.wrapping_lawful
        inv.chunk.index small rand regSize
      rw [short] at call
      rcases cases with ⟨none, -⟩ | ⟨idx, out, draws', avail, result, index, takes⟩
      · rw [none] at call
        injection call with _ ckEq
        subst ckEq
        exact ⟨live, dead, inv⟩
      · rw [result] at call
        simp at call
  | @dealloc t run d before member call ih =>
      obtain ⟨live, dead, inv⟩ := ih
      obtain ⟨n, inLive, run_eq⟩ := inv.live_node member
      obtain ⟨d', called, ptrEq, sizeEq, inv', -, keyEq, -⟩ :=
        chunkDeallocateRun_ok inv.chunk inLive
      rw [inv.key_eq, run_eq] at called ptrEq sizeEq
      rw [called] at call
      injection call with same
      subst same
      have moved : (live ++ dead).Perm (live.erase n ++ n :: dead) :=
        ((List.perm_cons_erase inLive).append_right dead).trans List.perm_middle.symm
      refine ⟨live.erase n, n :: dead, keyEq.trans inv.key_eq, inv', ?_, ?_, ?_, ?_⟩
      · exact inv.ever.trans (moved.map _)
      · have shifted := ((List.perm_cons_erase member).symm.trans inv.live_eq).trans
          ((List.perm_cons_erase inLive).map _)
        rw [List.map_cons, run_eq] at shifted
        exact (List.perm_cons _).mp shifted
      · rw [List.map_cons, run_eq, inv.freed]
      · rw [List.map_cons, run_eq, inv.unmaps, ptrEq, sizeEq]

/-- A leaf of a chunk by its offset was part of one of the runs. -/
def LeafIn (key : Nat) (runs : List ChunkRun) (leaf : Nat) : Prop :=
  ∃ run ∈ runs, run.Holds (key + (leaf - 2048) * chunkLeastRegionSizeBytes)

/-- A node of a level is available when no leaf under it was ever part of a run. -/
def Available (key : Nat) (ever : List ChunkRun) (level idx : Nat) : Prop :=
  2 ^ level ≤ idx ∧ idx < 2 ^ (level + 1) ∧
    ∀ leaf, leaf / 2 ^ (11 - level) = idx → ¬ LeafIn key ever leaf

theorem leafIn_iff {key leaf : Nat} {nodes : List Nat} (valid : ∀ n ∈ nodes, IsNode n)
    (isLeaf : InLevel 11 leaf) :
    LeafIn key (nodes.map (nodeRun key)) leaf ↔ ∃ n ∈ nodes, Below n leaf := by
  unfold LeafIn
  constructor
  · rintro ⟨run, member, holds⟩
    obtain ⟨n, inside, rfl⟩ := List.mem_map.mp member
    refine ⟨n, inside, (leaf_below (valid n inside) isLeaf).mpr ?_⟩
    unfold ChunkRun.Holds nodeRun at holds
    rw [leastRegion] at holds
    simp only at holds
    omega
  · rintro ⟨n, inside, below⟩
    refine ⟨_, List.mem_map.mpr ⟨n, inside, rfl⟩, ?_⟩
    have span := (leaf_below (valid n inside) isLeaf).mp below
    unfold ChunkRun.Holds nodeRun
    rw [leastRegion]
    simp only
    omega

theorem TraceInv.valid {key : Nat} {t : ChunkTrace} {live dead : List Nat}
    (inv : TraceInv key t live dead) : ∀ n ∈ live ++ dead, IsNode n := by
  intro n member
  have bounds := inv.chunk.nodes n member
  exact ⟨by omega, bounds.2⟩

theorem TraceInv.leafIn_ever {key : Nat} {t : ChunkTrace} {live dead : List Nat}
    (inv : TraceInv key t live dead) {leaf : Nat} (isLeaf : InLevel 11 leaf) :
    LeafIn key t.ever leaf ↔ ∃ n ∈ live ++ dead, Below n leaf := by
  rw [← leafIn_iff inv.valid isLeaf]
  unfold LeafIn
  exact ⟨fun ⟨run, member, holds⟩ => ⟨run, inv.ever.mem_iff.mp member, holds⟩,
    fun ⟨run, member, holds⟩ => ⟨run, inv.ever.mem_iff.mpr member, holds⟩⟩

/-- Availability by leaves is availability by nodes. -/
theorem TraceInv.available_iff {key : Nat} {t : ChunkTrace} {live dead : List Nat}
    (inv : TraceInv key t live dead) {level idx : Nat} (deep : level ≤ 11) :
    Available key t.ever level idx ↔ Avail (live ++ dead) level idx := by
  unfold Available Avail InLevel
  rw [and_assoc]
  refine and_congr_right fun low => and_congr_right fun high => ?_
  have node : InLevel level idx := ⟨low, high⟩
  have leafLevel : ∀ leaf, leaf / 2 ^ (11 - level) = idx → InLevel 11 leaf := by
    intro leaf up
    have span := (Nat.div_eq_iff (Nat.two_pow_pos _)).mp up
    have lower : 2 ^ level * 2 ^ (11 - level) ≤ idx * 2 ^ (11 - level) :=
      Nat.mul_le_mul_right _ low
    have upper : (idx + 1) * 2 ^ (11 - level) ≤ 2 ^ (level + 1) * 2 ^ (11 - level) :=
      Nat.mul_le_mul_right _ high
    rw [← Nat.pow_add, show level + (11 - level) = 11 by omega] at lower
    rw [← Nat.pow_add, show level + 1 + (11 - level) = 12 by omega, Nat.succ_mul] at upper
    have := Nat.two_pow_pos (11 - level)
    exact ⟨by omega, by omega⟩
  constructor
  · intro none n member meet
    have isNode : IsNode idx := ⟨node.positive, node.small deep⟩
    have common : ∃ leaf, InLevel 11 leaf ∧ Below idx leaf ∧ Below n leaf := by
      rcases meet with below | above
      · obtain ⟨leaf, isLeaf, under⟩ := exists_leaf isNode
        exact ⟨leaf, isLeaf, under, below_trans below under⟩
      · obtain ⟨leaf, isLeaf, under⟩ := exists_leaf (inv.valid n member)
        exact ⟨leaf, isLeaf, below_trans above under, under⟩
    obtain ⟨leaf, isLeaf, underIdx, underN⟩ := common
    exact none leaf (below_level node isLeaf underIdx).2
      ((inv.leafIn_ever isLeaf).mpr ⟨n, member, underN⟩)
  · intro none leaf up taken
    obtain ⟨n, member, below⟩ := (inv.leafIn_ever (leafLevel leaf up)).mp taken
    exact none n member (below_linear below ⟨_, up⟩)

/-- The nodes that a level's list enumerates from its first index on, with the offsets in
both directions: 0 before the first and after the last node, and nowhere else on the list. -/
structure Enumerates (ck : Chunk) (level : Nat) (nodes : List Nat) : Prop where
  first : ck.jumpTreeFirstIndex level = nodes.headD 0
  step : nodes.IsChain fun i j =>
    i + (getJtItem ck.jumpTree i).next = j ∧ i + (getJtItem ck.jumpTree j).prev = j
  last : ∀ i, nodes.getLast? = some i → (getJtItem ck.jumpTree i).next = 0
  start : ∀ i, nodes.head? = some i → (getJtItem ck.jumpTree i).prev = 0

theorem levelOk_enumerates {ck : Chunk} {level : Nat} {A : Nat → Prop} (ok : LevelOk ck level A) :
    ∃ nodes : List Nat, (∀ i, i ∈ nodes ↔ A i) ∧ nodes.Pairwise (· < ·) ∧
      Enumerates ck level nodes ∧ ck.availNodesCount level = nodes.length := by
  by_cases empty : ∀ i, ¬ A i
  · refine ⟨[], ?_, List.Pairwise.nil, ⟨?_, by simp, by simp, by simp⟩, ?_⟩
    · intro i
      simp [empty i]
    · exact ok.linked.first_none empty
    · exact ok.count_zero.mpr empty
  · push Not at empty
    obtain ⟨i, member⟩ := empty
    obtain ⟨first, least, below⟩ := exists_first member
    obtain ⟨rest, members, sorted, chain, final⟩ :=
      ok.linked.listing_from (2 ^ (level + 1)) first least fun j inside => by
        have := (ok.within j inside).2
        omega
    have all : ∀ j, j ∈ first :: rest ↔ A j := by
      intro j
      rw [members j]
      refine and_iff_left_of_imp fun inside => ?_
      by_contra less
      exact below j (by omega) inside
    refine ⟨first :: rest, all, sorted, ⟨ok.linked.first_eq least below, chain, ?_, ?_⟩, ?_⟩
    · intro j isLast
      rw [List.getLast?_eq_some_getLast (by simp), Option.some.injEq] at isLast
      rw [← isLast]
      exact final
    · intro j isFirst
      rw [List.head?_cons, Option.some.injEq] at isFirst
      rw [← isFirst]
      exact ok.linked.prev_first least below
    · rw [ok.count]
      have same : {j | A j} = ↑(first :: rest).toFinset := by
        ext j
        rw [Finset.mem_coe, List.mem_toFinset, all]
        rfl
      rw [same, Set.ncard_coe_finset, List.toFinset_card_of_nodup]
      exact sorted.imp fun {a b} less => by omega

/-- In every chunk reached from `chunk_init`, each level's list enumerates exactly the
available nodes in increasing order, its counter is their number, unavailable nodes carry no
offsets, and no 16-bit value has wrapped. -/
theorem chunk_freeIndex {key : Nat} {t : ChunkTrace} (reach : ChunkReach key t) :
    (∀ level, 1 ≤ level → level ≤ 11 →
      (∃ nodes : List Nat, (∀ i, i ∈ nodes ↔ Available key t.ever level i) ∧
        nodes.Pairwise (· < ·) ∧ Enumerates t.chunk level nodes ∧
        t.chunk.availNodesCount level = nodes.length ∧
        (t.chunk.jumpTreeFirstIndex level = 0 ↔ nodes = [])) ∧
      ∀ i, 2 ^ level ≤ i → i < 2 ^ (level + 1) → ¬ Available key t.ever level i →
        getJtItem t.chunk.jumpTree i = ⟨0, 0⟩) ∧
    (∀ ck heap, chunkInit .wrapping ck heap = chunkInit .unbounded ck heap) ∧
    ∀ k regSize rand, k ≤ 10 →
      chunkAllocateRun .wrapping rand t.chunk (chunkLeastRegionSizeBytes * 2 ^ k) regSize =
        chunkAllocateRun .unbounded rand t.chunk (chunkLeastRegionSizeBytes * 2 ^ k) regSize := by
  obtain ⟨live, dead, inv⟩ := chunkReach_invariant reach
  refine ⟨?_, fun ck heap => (chunkInit_ok Short.wrapping_lawful ck heap).1, ?_⟩
  · intro level low high
    have ok := inv.chunk.index.levels level low high
    have same : ∀ i, Available key t.ever level i ↔ Avail (live ++ dead) level i := fun i =>
      inv.available_iff high
    obtain ⟨nodes, members, sorted, enumerates, count⟩ := levelOk_enumerates ok
    refine ⟨⟨nodes, fun i => (members i).trans (same i).symm, sorted, enumerates, count, ?_⟩, ?_⟩
    · rw [enumerates.first]
      cases nodes with
      | nil => simp
      | cons first rest =>
          have inside := (members first).mp List.mem_cons_self
          have positive := inside.1.positive
          simp only [List.headD_cons, reduceCtorEq, iff_false]
          omega
    · intro i first last outside
      have zero := ok.off i ⟨first, last⟩ fun member => outside ((same i).mpr member)
      exact jumpNode_eq zero.2 zero.1
  · intro k regSize rand small
    exact (chunkAllocateRun_ok Short.wrapping_lawful inv.chunk.index small rand regSize).1

/-- A trace with one live run. -/
theorem chunkReach_once : ∃ t run, ChunkReach 4096 t ∧ t.ever = [run] ∧ t.live = [run] := by
  let fresh : Chunk := ⟨0, fun _ => 0, fun _ => 0, fun _ => 0, fun _ => ⟨0, 0⟩, fun _ => 0#8⟩
  have inv := chunkInit_inv fresh 4096
  obtain ⟨short, cases⟩ := chunkAllocateRun_ok (k := 3)
    Short.wrapping_lawful inv.index (by decide) (fun _ => 0) 131072
  rcases cases with ⟨-, none⟩ | ⟨idx, out, draws, -, result, -⟩
  · exact absurd ⟨⟨by decide, by decide⟩, by simp⟩ (none 256)
  · exact ⟨_, _, .alloc (.init fresh) (by decide) (short.trans result), rfl, rfl⟩

theorem chunk_freeIndex_once : ∃ t run, ChunkReach 4096 t ∧ t.ever = [run] ∧
    ∃ nodes : List Nat, (∀ i, i ∈ nodes ↔ Available 4096 t.ever 11 i) ∧
      t.chunk.availNodesCount 11 = nodes.length := by
  obtain ⟨t, run, reach, ever, -⟩ := chunkReach_once
  obtain ⟨⟨nodes, members, -, -, count, -⟩, -⟩ :=
    (chunk_freeIndex reach).1 11 (by decide) (by decide)
  exact ⟨t, run, reach, ever, nodes, members, count⟩

/-- The blocks of a run size in a chunk, by their position. -/
def alignedBlock (key k j : Nat) : ChunkRun :=
  ⟨key + j * (chunkLeastRegionSizeBytes * 2 ^ k), chunkLeastRegionSizeBytes * 2 ^ k⟩

theorem alignedBlock_node {k j : Nat} (key : Nat) (small : k ≤ 10) (inside : j < 2 ^ (11 - k)) :
    InLevel (11 - k) (2 ^ (11 - k) + j) ∧
      nodeRun key (2 ^ (11 - k) + j) = alignedBlock key k j := by
  have node : InLevel (11 - k) (2 ^ (11 - k) + j) := by
    refine ⟨by omega, ?_⟩
    rw [Nat.pow_succ]
    omega
  have first : 2 ^ (11 - k) * 2 ^ k = 2048 := by
    rw [← Nat.pow_add, show 11 - k + k = 11 by omega]
  refine ⟨node, ?_⟩
  rw [nodeRun_eq node (by omega), show 11 - (11 - k) = k by omega, Nat.add_mul, first,
    Nat.add_sub_cancel_left, alignedBlock, Nat.mul_assoc, Nat.mul_comm (2 ^ k)]

theorem TraceInv.avail_iff {key : Nat} {t : ChunkTrace} {live dead : List Nat}
    (inv : TraceInv key t live dead) {k j : Nat} (small : k ≤ 10) (inside : j < 2 ^ (11 - k)) :
    Avail (live ++ dead) (11 - k) (2 ^ (11 - k) + j) ↔
      ∀ run ∈ t.ever, (alignedBlock key k j).Apart run := by
  obtain ⟨node, block⟩ := alignedBlock_node key small inside
  have isNode : IsNode (2 ^ (11 - k) + j) := ⟨node.positive, node.small (by omega)⟩
  constructor
  · intro avail run member
    obtain ⟨n, inNodes, rfl⟩ := List.mem_map.mp (inv.ever.mem_iff.mp member)
    rw [← block, nodeRun_apart isNode (inv.valid n inNodes)]
    exact fun meet => avail.2 n inNodes (comparable_symm meet)
  · intro apart
    refine ⟨node, fun n inNodes meet => ?_⟩
    have disjoint := apart _ (inv.ever.mem_iff.mpr (List.mem_map.mpr ⟨n, inNodes, rfl⟩))
    rw [← block, nodeRun_apart isNode (inv.valid n inNodes)] at disjoint
    exact disjoint (comparable_symm meet)

/-- Each node of a level is one of the blocks of that size. -/
theorem inLevel_block {k idx : Nat} (node : InLevel (11 - k) idx) :
    ∃ j, j < 2 ^ (11 - k) ∧ idx = 2 ^ (11 - k) + j := by
  refine ⟨idx - 2 ^ (11 - k), ?_, ?_⟩
  · have := node.2
    rw [Nat.pow_succ] at this
    have := node.1
    omega
  · have := node.1
    omega

/-- `chunk_allocate_run` fails exactly when no block of the size is free of every run ever
returned, and otherwise returns such a block, whatever the random values are. -/
theorem chunk_oneTime {key : Nat} {t : ChunkTrace} (reach : ChunkReach key t) :
    (∀ k regSize rand, k ≤ 10 →
      ((chunkAllocateRun .wrapping rand t.chunk (chunkLeastRegionSizeBytes * 2 ^ k)
          regSize).result = none ↔
        ∀ j, j < 2 ^ (11 - k) → ∃ run ∈ t.ever, ¬ (alignedBlock key k j).Apart run) ∧
      ∀ ptr, (chunkAllocateRun .wrapping rand t.chunk (chunkLeastRegionSizeBytes * 2 ^ k)
          regSize).result = some ptr →
        (∃ j, j < 2 ^ (11 - k) ∧
          alignedBlock key k j = ⟨ptr, chunkLeastRegionSizeBytes * 2 ^ k⟩) ∧
        chunkLeastRegionSizeBytes * 2 ^ k ∣ ptr - key ∧
        key ≤ ptr ∧ ptr + chunkLeastRegionSizeBytes * 2 ^ k ≤ key + chunkSizeBytes ∧
        ∀ run ∈ t.ever, ChunkRun.Apart ⟨ptr, chunkLeastRegionSizeBytes * 2 ^ k⟩ run) ∧
    (chunkIsFull t.chunk ↔ ∀ k regSize rand, k ≤ 10 →
      (chunkAllocateRun .wrapping rand t.chunk (chunkLeastRegionSizeBytes * 2 ^ k)
        regSize).result = none) := by
  obtain ⟨live, dead, inv⟩ := chunkReach_invariant reach
  have call := fun k regSize rand (small : k ≤ 10) =>
    chunkAllocateRun_ok (k := k) Short.wrapping_lawful inv.chunk.index
      small rand regSize
  have failed : ∀ k regSize rand, k ≤ 10 →
      ((chunkAllocateRun .wrapping rand t.chunk (chunkLeastRegionSizeBytes * 2 ^ k)
        regSize).result = none ↔ ∀ i, ¬ Avail (live ++ dead) (11 - k) i) := by
    intro k regSize rand small
    obtain ⟨short, cases⟩ := call k regSize rand small
    rw [short]
    rcases cases with ⟨none, noNode⟩ | ⟨idx, out, draws, avail, result, -⟩
    · rw [none]
      exact ⟨fun _ => noNode, fun _ => rfl⟩
    · rw [result]
      constructor
      · intro impossible
        simp at impossible
      · intro noNode
        exact absurd avail (noNode idx)
  refine ⟨?_, ?_⟩
  · intro k regSize rand small
    constructor
    · rw [failed k regSize rand small]
      constructor
      · intro none j inside
        by_contra apart
        push Not at apart
        exact none _ ((inv.avail_iff small inside).mpr apart)
      · intro blocked i avail
        obtain ⟨j, inside, rfl⟩ := inLevel_block avail.1
        obtain ⟨run, member, overlap⟩ := blocked j inside
        exact overlap ((inv.avail_iff small inside).mp avail run member)
    · intro ptr got
      obtain ⟨short, cases⟩ := call k regSize rand small
      rw [short] at got
      rcases cases with ⟨none, -⟩ | ⟨idx, out, draws, avail, result, -, takes⟩
      · rw [none] at got
        simp at got
      · rw [result, Option.some.injEq] at got
        subst got
        obtain ⟨j, inside, rfl⟩ := inLevel_block avail.1
        obtain ⟨node, block⟩ := alignedBlock_node key small inside
        have same : alignedBlock key k j = ⟨out.1, chunkLeastRegionSizeBytes * 2 ^ k⟩ := by
          rw [← block, nodeRun_eq node (by omega), takes.ptr, inv.key_eq,
            show 11 - (11 - k) = k by omega]
        have start : key + j * (chunkLeastRegionSizeBytes * 2 ^ k) = out.1 :=
          congrArg ChunkRun.ptr same
        have bounds := nodeRun_bounds key (n := 2 ^ (11 - k) + j)
          ⟨node.positive, node.small (by omega)⟩
        rw [block, same] at bounds
        refine ⟨⟨j, inside, same⟩, ?_, bounds.1, bounds.2.1, ?_⟩
        · rw [← start, Nat.add_sub_cancel_left]
          exact Nat.dvd_mul_left _ _
        · rw [← same]
          exact (inv.avail_iff small inside).mp avail
  · have leaves := inv.chunk.index.levels 11 (by decide) (by decide)
    have full : chunkIsFull t.chunk ↔ ∀ i, ¬ Avail (live ++ dead) 11 i := leaves.count_zero
    rw [full]
    constructor
    · intro none k regSize rand small
      rw [failed k regSize rand small]
      intro i avail
      have isNode : IsNode i := ⟨avail.1.positive, avail.1.small (by omega)⟩
      obtain ⟨leaf, isLeaf, under⟩ := exists_leaf isNode
      exact none leaf (avail.below isLeaf under)
    · intro allFail
      exact (failed 0 16 (fun _ => 0) (by decide)).mp (allFail 0 16 _ (by decide))

theorem chunk_oneTime_once : ∃ t run, ChunkReach 4096 t ∧ t.ever = [run] ∧
    ((chunkAllocateRun .wrapping (fun _ => 7) t.chunk (chunkLeastRegionSizeBytes * 2 ^ 10)
        16777216).result = none ↔
      ∀ j, j < 2 ^ 1 → ∃ run ∈ t.ever, ¬ (alignedBlock 4096 10 j).Apart run) := by
  obtain ⟨t, run, reach, ever, -⟩ := chunkReach_once
  exact ⟨t, run, reach, ever, ((chunk_oneTime reach).1 10 16777216 _ (by decide)).1⟩

/-- Every leaf of the chunk was in a run that has been deallocated. -/
def Reclaimed (key : Nat) (freed : List ChunkRun) : Prop :=
  ∀ leaf, 2048 ≤ leaf → leaf < 4096 → LeafIn key freed leaf

/-- A node under which every leaf is dead, and which is not strictly inside a dead run, is
gone. -/
theorem gone_of_leaves {dead : List Nat} (height : Nat) : ∀ d n, d + height = 11 → InLevel d n →
    (∀ leaf, InLevel 11 leaf → Below n leaf → ∃ run ∈ dead, Below run leaf) →
    (∀ run ∈ dead, Below run n → run = n) → Gone dead n := by
  induction height with
  | zero =>
      intro d n sum node leaves exposed
      have same : d = 11 := by omega
      subst same
      obtain ⟨run, member, below⟩ := leaves n node (below_refl n)
      rw [← exposed run member below]
      exact .run member
  | succ height ih =>
      intro d n sum node leaves exposed
      by_cases inside : n ∈ dead
      · exact .run inside
      · have double : 2 ^ (d + 1) = 2 ^ d * 2 := Nat.pow_succ 2 d
        have double' : 2 ^ (d + 1 + 1) = 2 ^ (d + 1) * 2 := Nat.pow_succ 2 (d + 1)
        obtain ⟨low, high⟩ := node
        have child : ∀ c, c / 2 = n → InLevel (d + 1) c → Gone dead c := by
          intro c parent level
          have under : Below n c := ⟨1, by rw [Nat.pow_one, parent]⟩
          refine ih (d + 1) c (by omega) level ?_ ?_
          · intro leaf isLeaf below
            exact leaves leaf isLeaf (below_trans under below)
          · intro run member below
            obtain ⟨depth, up⟩ := below
            cases depth with
            | zero =>
                rw [Nat.pow_zero, Nat.div_one] at up
                exact up.symm
            | succ depth =>
                have above : Below run n := by
                  refine ⟨depth, ?_⟩
                  rw [← parent, Nat.div_div_eq_div_mul, ← Nat.pow_succ']
                  exact up
                rw [exposed run member above] at member
                exact absurd member inside
        exact .both (child (n * 2) (by omega) ⟨by omega, by omega⟩)
          (child (n * 2 + 1) (by omega) ⟨by omega, by omega⟩)

/-- The root is gone exactly when every leaf is dead. -/
theorem gone_root_iff {dead : List Nat} (key : Nat) (valid : ∀ n ∈ dead, 2 ≤ n ∧ n < 4096) :
    Gone dead 1 ↔ Reclaimed key (dead.map (nodeRun key)) := by
  have nodes : ∀ n ∈ dead, IsNode n := fun n member => ⟨by have := valid n member; omega,
    (valid n member).2⟩
  have rootLevel : InLevel 0 1 := ⟨by decide, by decide⟩
  constructor
  · intro gone leaf low high
    have isLeaf : InLevel 11 leaf := ⟨low, high⟩
    rw [leafIn_iff nodes isLeaf]
    have under : Below 1 leaf := ⟨11, by omega⟩
    obtain ⟨run, member, meet⟩ := gone.meets under
    refine ⟨run, member, ?_⟩
    rcases meet with below | above
    · exact below
    · obtain ⟨d, deep, level⟩ := (nodes run member).level
      obtain ⟨le, up⟩ := below_level isLeaf level above
      have same : d = 11 := by omega
      rw [same, Nat.sub_self, Nat.pow_zero, Nat.div_one] at up
      rw [up]
      exact below_refl leaf
  · intro reclaimed
    refine gone_of_leaves 11 0 1 (by decide) rootLevel ?_ ?_
    · intro leaf isLeaf below
      exact (leafIn_iff nodes isLeaf).mp (reclaimed leaf isLeaf.1 isLeaf.2)
    · intro run member below
      have le := below_le below
      have := valid run member
      omega

theorem TraceInv.dead_valid {key : Nat} {t : ChunkTrace} {live dead : List Nat}
    (inv : TraceInv key t live dead) : ∀ n ∈ dead, 2 ≤ n ∧ n < 4096 :=
  fun n member => inv.chunk.nodes n (List.mem_append_right _ member)

/-- Deallocating a live run unmaps exactly its bytes, none of which were unmapped before, and
returns true exactly when every leaf has then been allocated and deallocated. In every state
the root is marked unmapped exactly then, and no node is marked depleted. -/
theorem chunk_reclaim {key : Nat} {t : ChunkTrace} (reach : ChunkReach key t) :
    (∀ run ∈ t.live, ∃ d, chunkDeallocateRun t.chunk run.ptr = some d ∧
      d.unmapPtr = run.ptr ∧ d.unmapSize = run.size ∧
      run ∈ t.ever ∧ key ≤ run.ptr ∧ run.ptr + run.size ≤ key + chunkSizeBytes ∧
      (∀ other ∈ t.live.erase run, run.Apart other) ∧
      (∀ range ∈ t.unmaps, run.Apart range) ∧
      (d.whole = true ↔ Reclaimed key (run :: t.freed)) ∧
      (chunkIsUnmapped d.chunk ↔ Reclaimed key (run :: t.freed)) ∧
      ∀ idx, 1 ≤ idx → idx ≤ chunkNoNodes → getBuddyTreeItem d.chunk.buddyTree idx ≠ .depleted) ∧
    (chunkIsUnmapped t.chunk ↔ Reclaimed key t.freed) ∧
    ∀ idx, 1 ≤ idx → idx ≤ chunkNoNodes → getBuddyTreeItem t.chunk.buddyTree idx ≠ .depleted := by
  obtain ⟨live, dead, inv⟩ := chunkReach_invariant reach
  have lastNode : chunkNoNodes = 4095 := by decide
  refine ⟨?_, ?_, ?_⟩
  · intro run member
    obtain ⟨n, inLive, run_eq⟩ := inv.live_node member
    obtain ⟨d, called, ptrEq, sizeEq, inv', whole, -⟩ := chunkDeallocateRun_ok inv.chunk inLive
    rw [inv.key_eq, run_eq] at called ptrEq sizeEq
    have isNode := inv.chunk.isNode inLive
    have bounds := nodeRun_bounds key isNode
    rw [run_eq] at bounds
    have others : ∀ m ∈ live ++ dead, m ≠ n → run.Apart (nodeRun key m) := by
      intro m inside different
      rw [← run_eq, nodeRun_apart isNode (inv.valid m inside)]
      exact fun meet => different
        (inv.chunk.same (List.mem_append_left _ inLive) inside meet).symm
    have freed : Gone (n :: dead) 1 ↔ Reclaimed key (run :: t.freed) := by
      rw [gone_root_iff key fun m inside => inv'.nodes m
        (List.mem_append_right _ inside), List.map_cons, run_eq, inv.freed]
    refine ⟨d, called, ptrEq, sizeEq, ?_, bounds.1, bounds.2.1, ?_, ?_, whole.trans freed, ?_, ?_⟩
    · rw [inv.ever.mem_iff, ← run_eq]
      exact List.mem_map.mpr ⟨n, List.mem_append_left _ inLive, rfl⟩
    · intro other inOthers
      have shifted := ((List.perm_cons_erase member).symm.trans inv.live_eq).trans
        ((List.perm_cons_erase inLive).map _)
      rw [List.map_cons, run_eq] at shifted
      have erased := (List.perm_cons _).mp shifted
      obtain ⟨m, inside, rfl⟩ := List.mem_map.mp (erased.mem_iff.mp inOthers)
      refine others m (List.mem_append_left _ (List.mem_of_mem_erase inside)) ?_
      rintro rfl
      exact inv.chunk.nodup.not_mem_erase inside
    · intro range inUnmaps
      rw [inv.unmaps] at inUnmaps
      obtain ⟨m, inside, rfl⟩ := List.mem_map.mp inUnmaps
      refine others m (List.mem_append_right _ inside) ?_
      rintro rfl
      exact inv.chunk.live_notDead inLive inside (comparable_refl _)
    · rw [chunkIsUnmapped, inv'.states.unmapped 1 ⟨by decide, by decide⟩]
      exact freed
    · intro idx low high
      exact inv'.states.depleted idx ⟨by omega, by omega⟩
  · rw [chunkIsUnmapped, inv.chunk.states.unmapped 1 ⟨by decide, by decide⟩,
      gone_root_iff key inv.dead_valid, inv.freed]
  · intro idx low high
    exact inv.chunk.states.depleted idx ⟨by omega, by omega⟩

theorem chunk_reclaim_once : ∃ t run d, ChunkReach 4096 t ∧ t.live = [run] ∧
    chunkDeallocateRun t.chunk run.ptr = some d ∧ d.unmapSize = run.size := by
  obtain ⟨t, run, reach, -, live⟩ := chunkReach_once
  obtain ⟨d, called, -, size, -⟩ := (chunk_reclaim reach).1 run (by rw [live]; simp)
  exact ⟨t, run, d, reach, live, called, size⟩

end Sealloc
