import Sealloc.World.Mapping
import Sealloc.Api
import Sealloc.Chunk.Runs
import Sealloc.InternalAllocator.Refinement
import Sealloc.Run.Bitmap

/-! The invariant of the whole allocator: its metadata blocks, chunks, runs, bins and huge
mappings agree, and every mapped byte in use has one owner. -/

namespace Sealloc

open Library Chunk

/-- The lists of the arena that metadata blocks are on. -/
inductive Kind where
  | chunk
  | huge
  | run (bin : Nat)
  deriving DecidableEq, Repr

/-- The blocks of a kind; the runs of a bin are on its two lists. -/
def Arena.entries (arena : Arena) : Kind → List Nat
  | .chunk => arena.chunkList
  | .huge => arena.hugeAllocList
  | .run b => (arena.bins b).runListActive ++ (arena.bins b).runListInactive

def Arena.metaSize (arena : Arena) : Kind → Nat
  | .chunk => chunkSizeof
  | .huge => hugeChunkSizeof
  | .run b => (arena.bins b).runMetaSize

/-- An internal mapping holds an allocated block of at least `size` bytes at `addr`. -/
def Placed (roots : List Nat) (ias : Nat → IntAlloc) (addr size : Nat) : Prop :=
  ∃ root ∈ roots, ∃ k, (addr, k) ∈ (ias root).blocks root ∧ size ≤ 32 * 2 ^ k

/-- Every metadata block in use has its own allocated block in an internal mapping. -/
structure MetaInv (roots : List Nat) (ias : Nat → IntAlloc) (entries : Kind → List Nat)
    (size : Kind → Nat) : Prop where
  distinct : roots.Nodup
  valid : ∀ root ∈ roots, (ias root).Valid
  bounds : ∀ root ∈ roots, root + alignupPage intAllocSizeof ≤ userspaceEnd
  aligned : ∀ root ∈ roots, root % pageSize = 0
  placed : ∀ kind addr, addr ∈ entries kind → Placed roots ias addr (size kind)
  single : ∀ kind kind' addr, addr ∈ entries kind → addr ∈ entries kind' → kind = kind'
  nodup : ∀ kind, (entries kind).Nodup

/-- Where the runs are: the nodes of the live and of the dead runs of each chunk, and the node
of each run. -/
structure Layout where
  live : Nat → List Nat
  dead : Nat → List Nat
  node : Nat → Nat

/-- A chunk on pages of the process, whose side table is blank where no run was. -/
structure ChunkPlace (ck : Chunk) (live dead : List Nat) : Prop where
  inv : ChunkInv ck live dead
  blank : ∀ n, 2048 ≤ n → n ∉ live ++ dead → ck.regSizeSmallMedium (n - 2048) = regMarkBadValue
  aligned : ck.key % pageSize = 0
  low : 0 < ck.key
  high : ck.key + chunkSizeBytes ≤ userspaceEnd

/-- A run of class `b` on a node of a chunk, and what the side table of the chunk says. -/
structure RunPlace (ck : Chunk) (live : List Nat) (run : Run) (node b : Nat) : Prop where
  isClass : b < 43
  live : node ∈ live
  key : run.key = (nodeRun ck.key node).ptr
  size : (nodeRun ck.key node).size = classRunBytes b
  inv : run.Inv (classElems b)
  table : reportedSize ck node = if b < 36 then classSize b else 0

/-- An initialised bin of class `b`, and what its counters and lists say about its runs. -/
structure BinReady (b : Nat) (bin : Bin) (runs : Nat → Run) : Prop where
  isClass : b < 43
  regSize : bin.regSize = classSize b
  pages : bin.runSizePages * pageSize = classRunBytes b
  bits : bin.regMaskSizeBits = 2 * classElems b
  count : bin.runListActiveCnt = bin.runListActive.length
  avail : bin.availRegs = (bin.runListActive.map fun run => (runs run).navail).sum
  bound : bin.availRegs ≤ 2048
  active : ∀ run ∈ bin.runListActive, 0 < (runs run).navail
  inactive : ∀ run ∈ bin.runListInactive,
    (runs run).navail = 0 ∧ (runs run).nfreed < classElems b

def BinInv (b : Nat) (bin : Bin) (runs : Nat → Run) : Prop :=
  bin = Bin.zero ∨ BinReady b bin runs

structure HugePlace (huge : HugeChunk) : Prop where
  aligned : huge.key % pageSize = 0
  low : 0 < huge.key
  large : largeSizeMaxRegion < huge.len
  pages : huge.len % pageSize = 0
  high : huge.key + huge.len ≤ userspaceEnd

/-- Who uses a byte of the process: an internal mapping, a chunk or a huge mapping. -/
inductive Owner where
  | internal (root : Nat)
  | chunk (chunk : Nat)
  | huge (huge : Nat)
  deriving DecidableEq, Repr

/-- A chunk owns what is not under a dead run of it. -/
def Owns (w : World) (g : Layout) : Owner → Nat → Prop
  | .internal root, x =>
      root ∈ w.arena.internalAllocList ∧ root ≤ x ∧ x < root + alignupPage intAllocSizeof
  | .chunk chunk, x =>
      chunk ∈ w.arena.chunkList ∧ (w.chunks chunk).key ≤ x ∧
        x < (w.chunks chunk).key + chunkSizeBytes ∧
        ∀ n ∈ g.dead chunk, ¬ (nodeRun (w.chunks chunk).key n).Holds x
  | .huge huge, x =>
      huge ∈ w.arena.hugeAllocList ∧ (w.huges huge).key ≤ x ∧
        x < (w.huges huge).key + (w.huges huge).len

/-- A region of a run, by the first byte of the region and its state. -/
def Region (w : World) (chunk b run ptr : Nat) (s : BState) : Prop :=
  run ∈ w.arena.entries (.run b) ∧ w.history.runChunk run = chunk ∧
    ∃ i < classElems b, ptr = (w.runs run).key + i * classSize b ∧ (w.runs run).state i = s

/-- `ptr` is the first byte of `len` bytes that are allocated from `origin`. -/
def Located (w : World) (ptr : Nat) (origin : Origin) (len : Nat) : Prop :=
  match origin with
  | .regular chunk b run => Region w chunk b run ptr .alloc ∧ len = classSize b
  | .huge huge =>
      huge ∈ w.arena.hugeAllocList ∧ (w.huges huge).key = ptr ∧ len = (w.huges huge).len

theorem located_regular {w : World} {ptr chunk b run len : Nat} :
    Located w ptr (.regular chunk b run) len ↔
      Region w chunk b run ptr .alloc ∧ len = classSize b := Iff.rfl

theorem located_huge {w : World} {ptr huge len : Nat} : Located w ptr (.huge huge) len ↔
    huge ∈ w.arena.hugeAllocList ∧ (w.huges huge).key = ptr ∧ len = (w.huges huge).len := Iff.rfl

def Finding.Passes : Finding → Prop
  | .minimumRegions _ availRegs => binMinimumRegions ≤ availRegs
  | .picked _ idx length => idx < length
  | .deleted _ _ inactive => inactive = true

/-- The invariant. Between `chunk_allocate_run` and the metadata of its run, and between the
deletion of that and `chunk_deallocate_run`, one live node `pending` of a chunk has no run. -/
structure Inv (w : World) (g : Layout) (pending : Option (Nat × Nat)) : Prop where
  brk : w.arena.brk < maxUserspaceAddr64
  blocks : MetaInv w.arena.internalAllocList w.intAllocs w.arena.entries w.arena.metaSize
  chunks : ∀ chunk ∈ w.arena.chunkList,
    ChunkPlace (w.chunks chunk) (g.live chunk) (g.dead chunk)
  known : ∀ b, ∀ run ∈ w.arena.entries (.run b), w.history.runChunk run ∈ w.arena.chunkList
  runs : ∀ b, ∀ run ∈ w.arena.entries (.run b),
    RunPlace (w.chunks (w.history.runChunk run)) (g.live (w.history.runChunk run)) (w.runs run)
      (g.node run) b
  cover : ∀ chunk ∈ w.arena.chunkList, ∀ n ∈ g.live chunk, some (chunk, n) ≠ pending →
    ∃ b, ∃ run ∈ w.arena.entries (.run b), w.history.runChunk run = chunk ∧ g.node run = n
  same : ∀ b b' run run', run ∈ w.arena.entries (.run b) → run' ∈ w.arena.entries (.run b') →
    w.history.runChunk run = w.history.runChunk run' → g.node run = g.node run' → run = run'
  waits : ∀ chunk n, pending = some (chunk, n) → chunk ∈ w.arena.chunkList ∧
    n ∈ g.live chunk ∧ ∀ b, ∀ run ∈ w.arena.entries (.run b),
      w.history.runChunk run = chunk → g.node run ≠ n
  bins : ∀ b, BinInv b (w.arena.bins b) w.runs
  huges : ∀ huge ∈ w.arena.hugeAllocList, HugePlace (w.huges huge)
  owner : ∀ o o' x, Owns w g o x → Owns w g o' x → o = o'
  owned : ∀ o x, Owns w g o x → w.Mapped x
  granted : ∀ x, w.Mapped x → ∃ span ∈ w.history.granted, span.Holds x
  findings : ∀ finding ∈ w.history.findings, finding.Passes
  origin : ∀ ptr origin len, Located w ptr origin len → w.history.origin ptr = some origin

section Facts

variable {w : World} {g : Layout} {pending : Option (Nat × Nat)}

theorem Inv.node (inv : Inv w g pending) {b run : Nat} (member : run ∈ w.arena.entries (.run b)) :
    IsNode (g.node run) :=
  (inv.chunks _ (inv.known b run member)).inv.isNode (inv.runs b run member).live

/-- The bin of a run is initialised. -/
theorem Inv.ready (inv : Inv w g pending) {b run : Nat}
    (member : run ∈ w.arena.entries (.run b)) : BinReady b (w.arena.bins b) w.runs := by
  rcases inv.bins b with zero | ready
  · rw [Arena.entries, zero] at member
    simp [Bin.zero] at member
  · exact ready

/-- The bytes of a live node are its chunk's. -/
theorem Inv.owns_live (inv : Inv w g pending) {chunk n x : Nat}
    (member : chunk ∈ w.arena.chunkList) (live : n ∈ g.live chunk)
    (holds : (nodeRun (w.chunks chunk).key n).Holds x) : Owns w g (.chunk chunk) x := by
  have place := (inv.chunks chunk member).inv
  have bounds := nodeRun_bounds (w.chunks chunk).key (place.isNode live)
  refine ⟨member, ?_, ?_, ?_⟩
  · exact bounds.1.trans holds.1
  · exact lt_of_lt_of_le holds.2 bounds.2.1
  · intro m dead inside
    have bound := place.nodes m (List.mem_append_right _ dead)
    have apart : (nodeRun (w.chunks chunk).key n).Apart (nodeRun (w.chunks chunk).key m) :=
      (nodeRun_apart (place.isNode live) ⟨by omega, bound.2⟩).mpr (place.live_notDead live dead)
    unfold ChunkRun.Apart at apart
    unfold ChunkRun.Holds at holds inside
    omega

/-- The bytes of a region are inside its run. -/
theorem Inv.region_run (inv : Inv w g pending) {chunk b run ptr x : Nat} {s : BState}
    (region : Region w chunk b run ptr s) (low : ptr ≤ x) (high : x < ptr + classSize b) :
    (nodeRun (w.chunks chunk).key (g.node run)).Holds x := by
  rcases region with ⟨member, rfl, i, inside, rfl, -⟩
  have place := inv.runs b run member
  have facts := classSize_facts b place.isClass
  have upto : (i + 1) * classSize b ≤ classElems b * classSize b := Nat.mul_le_mul_right _ inside
  have size := place.size
  have key := place.key
  unfold ChunkRun.Holds
  rw [Nat.succ_mul] at upto
  omega

theorem Inv.region_owner (inv : Inv w g pending) {chunk b run ptr x : Nat} {s : BState}
    (region : Region w chunk b run ptr s) (low : ptr ≤ x) (high : x < ptr + classSize b) :
    Owns w g (.chunk chunk) x := by
  have inside := inv.region_run region low high
  rcases region with ⟨member, rfl, -⟩
  exact inv.owns_live (inv.known b run member) (inv.runs b run member).live inside

/-- Who owns the bytes that are allocated from an origin. -/
def Origin.owner : Origin → Owner
  | .regular chunk _ _ => .chunk chunk
  | .huge addr => .huge addr

theorem Inv.located_owner (inv : Inv w g pending) {ptr len x : Nat} {origin : Origin}
    (located : Located w ptr origin len) (low : ptr ≤ x) (high : x < ptr + len) :
    Owns w g origin.owner x := by
  cases origin with
  | regular chunk b run =>
      rcases located with ⟨region, rfl⟩
      exact inv.region_owner region low high
  | huge huge =>
      rcases located with ⟨member, rfl, rfl⟩
      exact ⟨member, low, high⟩

theorem Inv.region_pos (inv : Inv w g pending) {chunk b run ptr : Nat} {s : BState}
    (region : Region w chunk b run ptr s) : 0 < classSize b := by
  rcases region with ⟨member, -⟩
  have facts := classSize_facts b (inv.runs b run member).isClass
  omega

theorem Inv.located_pos (inv : Inv w g pending) {ptr len : Nat} {origin : Origin}
    (located : Located w ptr origin len) : 0 < len := by
  cases origin with
  | regular chunk b run =>
      rcases located with ⟨region, rfl⟩
      exact inv.region_pos region
  | huge huge =>
      rcases located with ⟨member, rfl, rfl⟩
      have large := (inv.huges huge member).large
      unfold largeSizeMaxRegion at large
      omega

/-- A run is of one bin only. -/
theorem Inv.run_bin (inv : Inv w g pending) {b c run : Nat}
    (member : run ∈ w.arena.entries (.run b)) (member' : run ∈ w.arena.entries (.run c)) :
    c = b := by
  have kinds := inv.blocks.single _ _ run member' member
  rw [Kind.run.injEq] at kinds
  exact kinds

/-- Live runs of a chunk that share a byte are on one node. -/
theorem Inv.same_node (inv : Inv w g pending) {chunk m n x : Nat}
    (member : chunk ∈ w.arena.chunkList) (one : m ∈ g.live chunk) (two : n ∈ g.live chunk)
    (holds : (nodeRun (w.chunks chunk).key m).Holds x)
    (holds' : (nodeRun (w.chunks chunk).key n).Holds x) : m = n := by
  have place := (inv.chunks chunk member).inv
  by_contra different
  have apart : (nodeRun (w.chunks chunk).key m).Apart (nodeRun (w.chunks chunk).key n) := by
    apply (nodeRun_apart (place.isNode one) (place.isNode two)).mpr
    intro meet
    exact different (place.same (List.mem_append_left _ one) (List.mem_append_left _ two) meet)
  unfold ChunkRun.Apart at apart
  unfold ChunkRun.Holds at holds holds'
  omega

/-- A byte is in one region only. -/
theorem Inv.region_same (inv : Inv w g pending) {chunk chunk' b b' run run' ptr ptr' x : Nat}
    {s s' : BState} (one : Region w chunk b run ptr s) (two : Region w chunk' b' run' ptr' s')
    (low : ptr ≤ x) (high : x < ptr + classSize b) (low' : ptr' ≤ x)
    (high' : x < ptr' + classSize b') :
    chunk = chunk' ∧ b = b' ∧ run = run' ∧ ptr = ptr' ∧ s = s' := by
  have chunks := inv.owner _ _ x (inv.region_owner one low high) (inv.region_owner two low' high')
  rw [Owner.chunk.injEq] at chunks
  subst chunks
  have inside := inv.region_run one low high
  have inside' := inv.region_run two low' high'
  rcases one with ⟨member, from_, i, small, ptrAt, state⟩
  rcases two with ⟨member', from', j, small', ptrAt', state'⟩
  have known := inv.known b run member
  have live := (inv.runs b run member).live
  have live' := (inv.runs b' run' member').live
  rw [from_] at known live
  rw [from'] at live'
  have node := inv.same_node known live live' inside inside'
  have runs := inv.same b b' run run' member member' (from_.trans from'.symm) node
  subst runs
  have bins := inv.run_bin member' member
  subst bins
  have index : i = j := by
    have size := inv.region_pos ⟨member, from_, i, small, ptrAt, state⟩
    rw [ptrAt] at low high
    rw [ptrAt'] at low' high'
    have onI : (x - (w.runs run).key) / classSize b = i := by
      apply Nat.div_eq_of_lt_le
      · omega
      · rw [Nat.succ_mul]
        omega
    have onJ : (x - (w.runs run).key) / classSize b = j := by
      apply Nat.div_eq_of_lt_le
      · omega
      · rw [Nat.succ_mul]
        omega
    exact onI.symm.trans onJ
  subst index
  exact ⟨rfl, rfl, rfl, ptrAt.trans ptrAt'.symm, state.symm.trans state'⟩

/-- Allocated regions that share a byte are the same. -/
theorem Inv.located_same (inv : Inv w g pending) {ptr ptr' len len' x : Nat}
    {origin origin' : Origin} (one : Located w ptr origin len)
    (two : Located w ptr' origin' len') (low : ptr ≤ x) (high : x < ptr + len)
    (low' : ptr' ≤ x) (high' : x < ptr' + len') :
    ptr = ptr' ∧ origin = origin' ∧ len = len' := by
  have owner := inv.owner _ _ x (inv.located_owner one low high)
    (inv.located_owner two low' high')
  cases origin with
  | regular chunk b run =>
      cases origin' with
      | regular chunk' b' run' =>
          rcases one with ⟨region, rfl⟩
          rcases two with ⟨region', rfl⟩
          rcases inv.region_same region region' low high low' high' with ⟨rfl, rfl, rfl, same, -⟩
          exact ⟨same, rfl, rfl⟩
      | huge huge' => simp [Origin.owner] at owner
  | huge huge =>
      cases origin' with
      | regular chunk' b' run' => simp [Origin.owner] at owner
      | huge huge' =>
          rw [Origin.owner, Origin.owner, Owner.huge.injEq] at owner
          subst owner
          rcases one with ⟨-, rfl, rfl⟩
          rcases two with ⟨-, rfl, rfl⟩
          exact ⟨rfl, rfl, rfl⟩

/-- A pointer has one origin. -/
theorem Inv.located_unique (inv : Inv w g pending) {ptr len len' : Nat} {origin origin' : Origin}
    (one : Located w ptr origin len) (two : Located w ptr origin' len') :
    origin = origin' ∧ len = len' := by
  have some := inv.located_pos one
  have some' := inv.located_pos two
  exact (inv.located_same one two (Nat.le_refl ptr) (by omega) (Nat.le_refl ptr) (by omega)).2

/-- A byte of user memory: one of an allocated region. -/
def UserByte (w : World) (x : Nat) : Prop :=
  ∃ ptr origin len, Located w ptr origin len ∧ ptr ≤ x ∧ x < ptr + len

/-- A byte of an internal mapping. -/
def Internal (roots : List Nat) (x : Nat) : Prop :=
  ∃ root ∈ roots, root ≤ x ∧ x < root + alignupPage intAllocSizeof

theorem Inv.user_external (inv : Inv w g pending) {x : Nat} (user : UserByte w x) :
    w.Mapped x ∧ ¬ Internal w.arena.internalAllocList x := by
  rcases user with ⟨ptr, origin, len, located, low, high⟩
  have owns := inv.located_owner located low high
  refine ⟨inv.owned _ _ owns, ?_⟩
  intro internal
  rcases internal with ⟨root, member, inside⟩
  have owner := inv.owner _ (.internal root) x owns ⟨member, inside⟩
  cases origin <;> simp [Origin.owner] at owner

theorem intAllocSizeof_le : intAllocSizeof ≤ alignupPage intAllocSizeof :=
  (alignupPage_spec (by decide)).1

/-- A metadata block lies inside its internal mapping. -/
theorem Placed.internal {roots : List Nat} {ias : Nat → IntAlloc} {addr size x : Nat}
    (placed : Placed roots ias addr size) (low : addr ≤ x) (high : x < addr + size) :
    Internal roots x := by
  rcases placed with ⟨root, member, k, block, fits⟩
  have bounds := IntAlloc.block_bounds block
  have whole := intAllocMemory_end root
  have rounded := intAllocSizeof_le
  have header : root ≤ intAllocMemory root := Nat.le_add_right _ _
  exact ⟨root, member, by omega, by omega⟩

theorem Placed.mono {roots roots' : List Nat} {ias ias' : Nat → IntAlloc} {addr size : Nat}
    (placed : Placed roots ias addr size)
    (kept : ∀ root ∈ roots, ∀ k, (addr, k) ∈ (ias root).blocks root →
      root ∈ roots' ∧ (addr, k) ∈ (ias' root).blocks root) :
    Placed roots' ias' addr size := by
  rcases placed with ⟨root, member, k, block, fits⟩
  have after := kept root member k block
  exact ⟨root, after.1, k, after.2, fits⟩

end Facts

end Sealloc
