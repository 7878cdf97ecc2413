import Sealloc.Chunk.Runs
import Sealloc.SizeClass

/-! Which run `chunk_get_run_ptr` finds for a pointer, in every chunk that can be reached. -/

namespace Sealloc

open Library Chunk

/-- A live run of a chunk, with the size of its regions. -/
structure SizedRun where
  run : ChunkRun
  regSize : Nat
  deriving DecidableEq, Repr

/-- The sizes with which runs are allocated from a chunk. -/
def ServedSize (k regSize : Nat) : Prop :=
  (k = 0 ∧ (isSizeSmall regSize ∨ isSizeMedium regSize ∨ regSize = chunkLeastRegionSizeBytes)) ∨
    (1 ≤ k ∧ k ≤ 6 ∧ regSize = chunkLeastRegionSizeBytes * 2 ^ k)

/-- A chunk that starts at `key` and its live runs, after any calls of the two operations. -/
inductive ChunkServes (key : Nat) : Chunk → List SizedRun → Prop
  | init (ck : Chunk) : ChunkServes key (chunkInit .wrapping ck key) []
  | alloc {ck ck' : Chunk} {runs : List SizedRun} {k regSize ptr draws : Nat} {rand : Nat → Nat}
      (before : ChunkServes key ck runs) (served : ServedSize k regSize)
      (call : chunkAllocateRun .wrapping rand ck (chunkLeastRegionSizeBytes * 2 ^ k) regSize =
        ⟨some ptr, ck', draws⟩) :
      ChunkServes key ck' (⟨⟨ptr, chunkLeastRegionSizeBytes * 2 ^ k⟩, regSize⟩ :: runs)
  | refuse {ck ck' : Chunk} {runs : List SizedRun} {k regSize draws : Nat} {rand : Nat → Nat}
      (before : ChunkServes key ck runs) (served : ServedSize k regSize)
      (call : chunkAllocateRun .wrapping rand ck (chunkLeastRegionSizeBytes * 2 ^ k) regSize =
        ⟨none, ck', draws⟩) :
      ChunkServes key ck' runs
  | dealloc {ck : Chunk} {runs : List SizedRun} {entry : SizedRun} {d : ChunkDealloc}
      (before : ChunkServes key ck runs) (member : entry ∈ runs)
      (call : chunkDeallocateRun ck entry.run.ptr = some d) :
      ChunkServes key d.chunk (runs.erase entry)

/-- What `chunk_get_run_ptr` reports as the region size of a run. -/
def reportOf (regSize : Nat) : Nat :=
  if isSizeSmall regSize ∨ isSizeMedium regSize then regSize else 0

/-- The live runs stand on the live nodes, and the side table has the sizes of their regions;
where no run has been, it is as `chunk_init` left it. -/
structure Serves (key : Nat) (ck : Chunk) (runs : List SizedRun) (live dead : List Nat)
    (sizes : Nat → Nat) : Prop where
  key_eq : ck.key = key
  inv : ChunkInv ck live dead
  nodup : runs.Nodup
  runs : ∀ entry, entry ∈ runs ↔ ∃ n ∈ live, entry = ⟨nodeRun key n, sizes n⟩
  table : ∀ n ∈ live, reportedSize ck n = reportOf (sizes n)
  blank : ∀ n, 2048 ≤ n → n ∉ live ++ dead → ck.regSizeSmallMedium (n - 2048) = regMarkBadValue

section Table

variable {ck : Chunk} {n : Nat}

/-- The side table of a chunk that has taken a node. -/
theorem reportedSize_take {level regSize : Nat} {out : Nat × Chunk}
    (takes : TakesNode ck n level regSize out) (node : InLevel level n) {m : Nat}
    (different : m ≠ n) : reportedSize out.2 m = reportedSize ck m := by
  unfold reportedSize
  by_cases leaf : 2048 ≤ m
  · rw [if_pos leaf, if_pos leaf, takes.sizes]
    by_cases stores : level = 11 ∧ regSize ≠ chunkLeastRegionSizeBytes
    · have low : 2048 ≤ n := by
        have := node.1
        rw [stores.1] at this
        exact this
      rw [if_pos stores, Function.update_of_ne (by omega)]
    · rw [if_neg stores]
  · rw [if_neg leaf, if_neg leaf]

/-- The entry of the side table for the run on a node that it was blank for. -/
theorem reportedSize_taken {k regSize : Nat} {out : Nat × Chunk}
    (takes : TakesNode ck n (11 - k) regSize out) (node : InLevel (11 - k) n)
    (served : ServedSize k regSize)
    (blank : 2048 ≤ n → ck.regSizeSmallMedium (n - 2048) = regMarkBadValue) :
    reportedSize out.2 n = reportOf regSize := by
  unfold reportedSize reportOf
  rcases served with ⟨none, sizes⟩ | ⟨low, high, size⟩
  · have leaf : 2048 ≤ n := by
      have := node.1
      rw [none] at this
      exact this
    rw [if_pos leaf, takes.sizes]
    by_cases stored : regSize ≠ chunkLeastRegionSizeBytes
    · have listed : isSizeSmall regSize ∨ isSizeMedium regSize := by
        rcases sizes with small | medium | large
        · exact Or.inl small
        · exact Or.inr medium
        · exact absurd large stored
      have bound : regSize ≤ 8192 := by
        rcases listed with small | medium
        · have := small.2
          unfold smallSizeMaxRegion at this
          omega
        · exact medium.2
      have word : u16 regSize = regSize := u16_eq (by omega)
      have sound : regSize ≠ regMarkBadValue := by
        unfold regMarkBadValue
        omega
      have entry : (if 11 - k = 11 ∧ regSize ≠ chunkLeastRegionSizeBytes then
          Function.update ck.regSizeSmallMedium (n - 2048) (u16 regSize)
          else ck.regSizeSmallMedium) (n - 2048) = regSize := by
        rw [if_pos ⟨by omega, stored⟩, Function.update_self, word]
      rw [entry, if_pos sound, if_pos listed]
    · have large : regSize = 16384 := by
        rw [← leastRegion]
        simpa using stored
      have notListed : ¬ (isSizeSmall regSize ∨ isSizeMedium regSize) := by
        rw [large]
        decide
      have entry : (if 11 - k = 11 ∧ regSize ≠ chunkLeastRegionSizeBytes then
          Function.update ck.regSizeSmallMedium (n - 2048) (u16 regSize)
          else ck.regSizeSmallMedium) (n - 2048) = regMarkBadValue := by
        rw [if_neg (fun both => stored both.2), blank leaf]
      rw [entry, if_neg notListed]
      simp
  · have inner : ¬ 2048 ≤ n := by
      have upper := node.2
      have short : 2 ^ (11 - k + 1) ≤ 2 ^ 11 := Nat.pow_le_pow_right (by decide) (by omega)
      omega
    have large : 16384 ≤ regSize := by
      have some := Nat.two_pow_pos k
      rw [size, leastRegion]
      omega
    have notListed : ¬ (isSizeSmall regSize ∨ isSizeMedium regSize) := by
      unfold isSizeSmall isSizeMedium smallSizeMaxRegion mediumSizeMaxRegion pageSize
      omega
    rw [if_neg inner, if_neg notListed]

end Table

theorem ServedSize.few {k regSize : Nat} (served : ServedSize k regSize) : k ≤ 6 := by
  rcases served with ⟨none, -⟩ | ⟨-, few, -⟩
  · omega
  · exact few

section Steps

variable {key : Nat} {ck : Chunk} {runs : List SizedRun} {live dead : List Nat}
  {sizes : Nat → Nat}

theorem serves_init (key : Nat) (ck : Chunk) :
    Serves key (chunkInit .wrapping ck key) [] [] [] fun _ => 0 := by
  rcases chunkInit_ok Short.wrapping_lawful ck key with ⟨short, -, start, table, -⟩
  rw [← short] at start table
  refine ⟨start, chunkInit_inv ck key, List.nodup_nil, by simp, by simp, ?_⟩
  intro n leaf unused
  rw [table]

theorem Serves.allocate {k regSize idx : Nat} {out : Nat × Chunk}
    (serves : Serves key ck runs live dead sizes) (served : ServedSize k regSize)
    (avail : Avail (live ++ dead) (11 - k) idx) (index : FreeIndex out.2 (idx :: (live ++ dead)))
    (takes : TakesNode ck idx (11 - k) regSize out) :
    Serves key out.2 (⟨⟨out.1, chunkLeastRegionSizeBytes * 2 ^ k⟩, regSize⟩ :: runs)
      (idx :: live) dead (Function.update sizes idx regSize) := by
  have few := served.few
  have node := avail.1
  have fresh : idx ∉ live ++ dead := fun member => avail.2 idx member (comparable_refl idx)
  have other : ∀ n ∈ live, n ≠ idx := by
    intro n member same
    rw [same] at member
    exact fresh (List.mem_append_left _ member)
  have run : nodeRun key idx = ⟨out.1, chunkLeastRegionSizeBytes * 2 ^ k⟩ := by
    rw [nodeRun_eq node (by omega), takes.ptr, serves.key_eq, show 11 - (11 - k) = k by omega]
  have kept : ∀ n ∈ live, Function.update sizes idx regSize n = sizes n := fun n member =>
    Function.update_of_ne (other n member) _ _
  refine ⟨takes.key.trans serves.key_eq,
    serves.inv.allocate (by omega) (by omega) avail index takes.tree, ?_, ?_, ?_, ?_⟩
  · apply List.nodup_cons.mpr
    refine ⟨?_, serves.nodup⟩
    intro member
    rcases (serves.runs _).mp member with ⟨n, isLive, same⟩
    rw [SizedRun.mk.injEq, ← run] at same
    have notMeet := avail.2 n (List.mem_append_left _ isLive)
    have isNode : IsNode idx := ⟨node.positive, node.small (by omega)⟩
    have apart := (@nodeRun_apart key _ _ isNode (serves.inv.isNode isLive)).mpr
      fun meet => notMeet (comparable_symm meet)
    have bounds := nodeRun_bounds key isNode
    rw [← same.1] at apart
    unfold ChunkRun.Apart at apart
    omega
  · intro entry
    rw [List.mem_cons, serves.runs]
    constructor
    · intro either
      rcases either with new | ⟨n, isLive, old⟩
      · exact ⟨idx, List.mem_cons_self, by rw [new, Function.update_self, run]⟩
      · exact ⟨n, List.mem_cons_of_mem _ isLive, by rw [old, kept n isLive]⟩
    · intro found
      rcases found with ⟨n, member, entryEq⟩
      rcases List.mem_cons.mp member with new | isLive
      · rw [new, Function.update_self, run] at entryEq
        exact Or.inl entryEq
      · rw [kept n isLive] at entryEq
        exact Or.inr ⟨n, isLive, entryEq⟩
  · intro n member
    rcases List.mem_cons.mp member with new | isLive
    · rw [new, Function.update_self]
      exact reportedSize_taken takes node served fun leaf => serves.blank idx leaf fresh
    · rw [kept n isLive, reportedSize_take takes node (other n isLive), serves.table n isLive]
  · intro n leaf unused
    rw [List.cons_append, List.mem_cons, not_or] at unused
    rw [takes.sizes]
    by_cases stores : 11 - k = 11 ∧ regSize ≠ chunkLeastRegionSizeBytes
    · have low : 2048 ≤ idx := by
        have := node.1
        rw [stores.1] at this
        exact this
      have apart := unused.1
      rw [if_pos stores, Function.update_of_ne (by omega)]
      exact serves.blank n leaf unused.2
    · rw [if_neg stores]
      exact serves.blank n leaf unused.2

theorem Serves.deallocate {entry : SizedRun} {d : ChunkDealloc}
    (serves : Serves key ck runs live dead sizes) (member : entry ∈ runs)
    (call : chunkDeallocateRun ck entry.run.ptr = some d) :
    ∃ n ∈ live, Serves key d.chunk (runs.erase entry) (live.erase n) (n :: dead) sizes := by
  rcases (serves.runs entry).mp member with ⟨n, isLive, entryEq⟩
  rcases chunkDeallocateRun_ok serves.inv isLive with
    ⟨d', called, -, -, inv', -, keyEq, table, -⟩
  rw [serves.key_eq] at called
  rw [entryEq, called] at call
  injection call with same
  subst same
  have nodup := serves.inv.nodup
  have single : ∀ m ∈ live, nodeRun key m = nodeRun key n → m = n := by
    intro m other same
    by_contra different
    have apart := (@nodeRun_apart key _ _ (serves.inv.isNode other)
      (serves.inv.isNode isLive)).mpr fun meet => different
        (serves.inv.same (List.mem_append_left _ other) (List.mem_append_left _ isLive) meet)
    have bounds := nodeRun_bounds key (serves.inv.isNode isLive)
    rw [same] at apart
    unfold ChunkRun.Apart at apart
    omega
  refine ⟨n, isLive, keyEq.trans serves.key_eq, inv', serves.nodup.erase _, ?_, ?_, ?_⟩
  · intro other
    rw [serves.nodup.mem_erase_iff, serves.runs]
    constructor
    · intro both
      rcases both with ⟨different, m, inLive, otherEq⟩
      refine ⟨m, (nodup.mem_erase_iff).mpr ⟨?_, inLive⟩, otherEq⟩
      intro same
      rw [same] at otherEq
      exact different (otherEq.trans entryEq.symm)
    · intro found
      rcases found with ⟨m, inLive, otherEq⟩
      rcases (nodup.mem_erase_iff).mp inLive with ⟨different, isLive'⟩
      refine ⟨?_, m, isLive', otherEq⟩
      intro same
      rw [otherEq, entryEq, SizedRun.mk.injEq] at same
      exact different (single m isLive' same.1)
  · intro m inLive
    have isLive' := ((nodup.mem_erase_iff).mp inLive).2
    rw [← serves.table m isLive']
    unfold reportedSize
    rw [table]
  · intro m leaf unused
    rw [table]
    apply serves.blank m leaf
    intro inside
    apply unused
    rcases List.mem_append.mp inside with inLive | inDead
    · by_cases same : m = n
      · rw [same]
        exact List.mem_append_right _ List.mem_cons_self
      · exact List.mem_append_left _ ((nodup.mem_erase_iff).mpr ⟨same, inLive⟩)
    · exact List.mem_append_right _ (List.mem_cons_of_mem _ inDead)

theorem chunkServes_invariant (reach : ChunkServes key ck runs) :
    ∃ live dead sizes, Serves key ck runs live dead sizes := by
  induction reach with
  | init ck => exact ⟨[], [], _, serves_init key ck⟩
  | @alloc ck ck' runs k regSize ptr draws rand before served call ih =>
      rcases ih with ⟨live, dead, sizes, serves⟩
      have few := served.few
      rcases chunkAllocateRun_ok (k := k) Short.wrapping_lawful serves.inv.index (by omega) rand
        regSize with ⟨short, cases⟩
      rw [short] at call
      rcases cases with ⟨none, -⟩ | ⟨idx, out, draws', avail, result, index, takes⟩
      · rw [none] at call
        simp at call
      · rw [result] at call
        injection call with ptrEq ckEq
        injection ptrEq with ptrEq
        rw [← ptrEq, ← ckEq]
        exact ⟨_, _, _, serves.allocate served avail index takes⟩
  | @refuse ck ck' runs k regSize draws rand before served call ih =>
      rcases ih with ⟨live, dead, sizes, serves⟩
      have few := served.few
      rcases chunkAllocateRun_ok (k := k) Short.wrapping_lawful serves.inv.index (by omega) rand
        regSize with ⟨short, cases⟩
      rw [short] at call
      rcases cases with ⟨none, -⟩ | ⟨idx, out, draws', avail, result, index, takes⟩
      · rw [none] at call
        injection call with _ ckEq
        rw [← ckEq]
        exact ⟨live, dead, sizes, serves⟩
      · rw [result] at call
        simp at call
  | dealloc before member call ih =>
      rcases ih with ⟨live, dead, sizes, serves⟩
      rcases serves.deallocate member call with ⟨n, -, after⟩
      exact ⟨_, _, _, after⟩

end Steps

/-- The walk up from a node of the tree ends after as many rounds as the node has levels. -/
theorem climb_more (mem : Nat → Byte) (extra : Nat) (rounds : Nat) : ∀ idx curSize, 1 ≤ idx →
    idx < 2 ^ rounds → climb mem (rounds + extra) idx curSize = climb mem rounds idx curSize := by
  induction rounds with
  | zero =>
      intro idx curSize positive small
      omega
  | succ rounds ih =>
      intro idx curSize positive small
      rw [Nat.succ_add, climb, climb]
      by_cases root : idx = 1
      · simp [root]
      · rw [Nat.pow_succ] at small
        rw [ih (idx / 2) (curSize * 2) (by omega) (by omega)]

/-- In every chunk that can be reached, `chunk_get_run_ptr` finds a run exactly for the pointers
into the first 16 KiB of a live run, and reports its start, its size, and the size of its regions
where that is small or medium. Its walk ends for every pointer into the chunk. -/
theorem chunk_lookup {key : Nat} {ck : Chunk} {runs : List SizedRun}
    (reach : ChunkServes key ck runs) (ptr : Nat) :
    (∀ info, chunkGetRunPtr ck ptr = some info ↔
      ∃ entry ∈ runs, entry.run.ptr ≤ ptr ∧ ptr < entry.run.ptr + chunkLeastRegionSizeBytes ∧
        info = ⟨entry.run.ptr, entry.run.size, reportOf entry.regSize⟩) ∧
    (key ≤ ptr → ptr < key + chunkSizeBytes → ∀ extra,
      climb ck.buddyTree (chunkBuddyTreeDepth + 1 + extra)
          ((chunkNoNodes + 1) / 2 + (ptr - ck.key) / chunkLeastRegionSizeBytes)
          chunkLeastRegionSizeBytes =
        climb ck.buddyTree (chunkBuddyTreeDepth + 1)
          ((chunkNoNodes + 1) / 2 + (ptr - ck.key) / chunkLeastRegionSizeBytes)
          chunkLeastRegionSizeBytes) := by
  rcases chunkServes_invariant reach with ⟨live, dead, sizes, serves⟩
  constructor
  · intro info
    rw [chunkGetRunPtr_iff serves.inv ptr info, serves.key_eq]
    constructor
    · intro found
      rcases found with ⟨n, isLive, low, high, infoEq⟩
      rw [serves.table n isLive] at infoEq
      exact ⟨_, (serves.runs _).mpr ⟨n, isLive, rfl⟩, low, high, infoEq⟩
    · intro found
      rcases found with ⟨entry, member, low, high, infoEq⟩
      rcases (serves.runs entry).mp member with ⟨n, isLive, entryEq⟩
      rw [entryEq] at low high infoEq
      rw [← serves.table n isLive] at infoEq
      exact ⟨n, isLive, low, high, infoEq⟩
  · intro low high extra
    have first : (chunkNoNodes + 1) / 2 = 2048 := by decide
    apply climb_more
    · rw [first]
      exact Nat.le_trans (by decide) (Nat.le_add_right 2048 _)
    · unfold chunkSizeBytes at high
      rw [first, leastRegion, serves.key_eq]
      unfold chunkBuddyTreeDepth
      norm_num
      omega

/-- A run of one 64 KiB region: its first byte is found, and what is 16 KiB further is not. -/
theorem chunk_lookup_once : ∃ ck ptr, ChunkServes 4096 ck [⟨⟨ptr, 65536⟩, 65536⟩] ∧
    chunkGetRunPtr ck ptr = some ⟨ptr, 65536, 0⟩ ∧ chunkGetRunPtr ck (ptr + 16384) = none := by
  let fresh : Chunk := ⟨0, fun _ => 0, fun _ => 0, fun _ => 0, fun _ => ⟨0, 0⟩, fun _ => 0#8⟩
  have inv := chunkInit_inv fresh 4096
  have served : ServedSize 2 65536 := Or.inr ⟨by decide, by decide, by decide⟩
  rcases chunkAllocateRun_ok (k := 2) Short.wrapping_lawful inv.index (by decide) (fun _ => 0)
    65536 with ⟨short, cases⟩
  rcases cases with ⟨-, none⟩ | ⟨idx, out, draws, -, result, -⟩
  · exact absurd ⟨⟨by decide, by decide⟩, by simp⟩ (none 512)
  · have reach := ChunkServes.alloc (ChunkServes.init fresh) served (short.trans result)
    refine ⟨_, _, reach, ?_, ?_⟩
    · apply ((chunk_lookup reach _).1 _).mpr
      refine ⟨_, List.mem_singleton.mpr rfl, Nat.le_refl _, ?_, rfl⟩
      rw [leastRegion]
      exact Nat.lt_add_of_pos_right (by decide)
    · apply Option.eq_none_iff_forall_ne_some.mpr
      intro info found
      rcases ((chunk_lookup reach _).1 info).mp found with ⟨entry, member, -, high, -⟩
      rw [List.mem_singleton.mp member, leastRegion] at high
      simp at high

end Sealloc
