import Sealloc.World.Session

/-! What holds in every state that can be reached: the regions of the program are apart, the
metadata of each is found, and the bins count their runs. -/

namespace Sealloc

open Library Chunk

/-- Requests that can be rounded up to whole pages, and no reallocation to no bytes. -/
def Call.Modest : Call → Prop
  | .malloc size => size ≤ sizeMax - 4095
  | .calloc nmemb size => nmemb * size ≤ sizeMax - 4095
  | .realloc _ newSize => 1 ≤ newSize ∧ newSize ≤ sizeMax - 4095
  | .free _ => True

instance : (call : Call) → Decidable call.Modest
  | .malloc size => inferInstanceAs (Decidable (size ≤ sizeMax - 4095))
  | .calloc nmemb size => inferInstanceAs (Decidable (nmemb * size ≤ sizeMax - 4095))
  | .realloc _ newSize => inferInstanceAs (Decidable (1 ≤ newSize ∧ newSize ≤ sizeMax - 4095))
  | .free _ => inferInstanceAs (Decidable True)

def modestCalls : Env → Session → Call → Session → Prop := fun _ _ call _ => call.Modest

/-- A byte of a metadata block, or of the header of an internal mapping. -/
def World.MetaByte (w : World) (x : Nat) : Prop :=
  (∃ root ∈ w.arena.internalAllocList, root ≤ x ∧
    x < root + (intAllocHeaderBytes + internalAllocBuddyTreeSizeBytes)) ∨
  ∃ kind, ∃ addr ∈ w.arena.entries kind, addr ≤ x ∧ x < addr + w.arena.metaSize kind

section Regions

variable {w : World} {g : Layout} {pending : Option (Nat × Nat)} {s : Session}

/-- Metadata lies in the internal mappings. -/
theorem Inv.meta_internal (inv : Inv w g pending) {x : Nat} (isMeta : w.MetaByte x) :
    Internal w.arena.internalAllocList x := by
  rcases isMeta with ⟨root, member, low, high⟩ | ⟨kind, addr, member, low, high⟩
  · have rounded := intAllocSizeof_le
    have whole : intAllocSizeof = intAllocHeaderBytes + internalAllocBuddyTreeSizeBytes +
        internalAllocChunkSizeBytes := rfl
    exact ⟨root, member, low, by omega⟩
  · exact (inv.blocks.placed kind addr member).internal low high

theorem Inv.located_aligned (inv : Inv w g pending) {p len : Nat} {o : Origin}
    (located : Located w p o len) : p % 16 = 0 := by
  cases o with
  | regular chunk b run =>
      rcases located.1 with ⟨member, rfl, i, -, rfl, -⟩
      have place := inv.runs b run member
      have size := (classSize_facts b place.isClass).2.1
      have start := (inv.chunks _ (inv.known b run member)).aligned
      have key := place.key
      have offset : (i * classSize b) % 16 = 0 := by
        rw [Nat.mul_mod, size, Nat.mul_zero, Nat.zero_mod]
      unfold nodeRun at key
      rw [leastRegion] at key
      unfold pageSize at start
      simp only at key
      omega
  | huge huge =>
      rcases located with ⟨member, rfl, -⟩
      have start := (inv.huges huge member).aligned
      unfold pageSize at start
      omega

/-- Regions that the program has at different addresses are apart. -/
theorem Session.Inv.apart (inv : s.Inv) : s.live.Pairwise UserRegion.Apart := by
  rcases inv.inv with ⟨g, world⟩
  apply List.Pairwise.imp_of_mem _ (List.pairwise_map.mp inv.distinct)
  intro region other member member' different
  rcases inv.located region member with ⟨o, located⟩
  rcases inv.located other member' with ⟨o', located'⟩
  have filled := world.located_pos located
  have filled' := world.located_pos located'
  unfold UserRegion.Apart
  by_contra overlap
  have same := world.located_same (x := max region.ptr other.ptr) located located' (by omega)
    (by omega) (by omega) (by omega)
  exact different same.1

/-- With modest requests, every region has the bytes that it was asked for. -/
theorem Reach.enough (reach : Reach modestCalls s) :
    ∀ region ∈ s.live, region.request ≤ region.len := by
  induction reach with
  | init _ _ _ _ =>
      intro region member
      exact absurd member List.not_mem_nil
  | @call s env fuel call result w before legal kept run ih =>
      intro region member
      have answered := before.inv.answered legal run
      rcases List.mem_append.mp member with new | old
      · cases result with
        | none => exact absurd new List.not_mem_nil
        | some q =>
            rcases answered.inv with ⟨g, world⟩
            rcases (answered.new q rfl).2 with ⟨o, len, located, enough⟩
            have same : region = ⟨q, call.request, w.regionLen q⟩ := List.mem_singleton.mp new
            have small : call.request ≤ sizeMax - 4095 := by
              cases call with
              | malloc size => exact kept
              | calloc nmemb size => exact kept
              | realloc ptr newSize => exact kept.2
              | free ptr => exact Nat.zero_le _
            rw [same]
            simp only [world.regionLen located]
            exact enough small
      · exact ih region (List.mem_filter.mp old).1
  | write _ _ ih => exact ih

/-- The regions that the program has are apart, aligned, large enough, mapped and free of
metadata, after any calls with modest requests. -/
theorem live_safe (reach : Reach modestCalls s) :
    s.live.Pairwise UserRegion.Apart ∧ ∀ region ∈ s.live,
      region.ptr % 16 = 0 ∧ region.request ≤ region.len ∧
        ∀ x, region.Holds x → s.world.Mapped x ∧ ¬ s.world.MetaByte x := by
  have inv := reach.inv
  refine ⟨inv.apart, ?_⟩
  intro region member
  rcases inv.inv with ⟨g, world⟩
  rcases inv.located region member with ⟨o, located⟩
  refine ⟨world.located_aligned located, reach.enough region member, ?_⟩
  intro x holds
  have external := world.user_external ⟨region.ptr, o, region.len, located, holds.1, holds.2⟩
  exact ⟨external.1, fun isMeta => external.2 (world.meta_internal isMeta)⟩

/-- A small region and a huge one, which moves. -/
theorem live_safe_once : ∃ s, Reach modestCalls s ∧ s.live.length = 2 ∧
    s.live.Pairwise UserRegion.Apart ∧ ∀ region ∈ s.live,
      region.ptr % 16 = 0 ∧ region.request ≤ region.len ∧
        ∀ x, region.Holds x → s.world.Mapped x ∧ ¬ s.world.MetaByte x := by
  have played : (Session.play (.willing fun n => (n + 1) * 2 ^ 44) 3 (2 ^ 45)
      [.malloc 16, .malloc (2 ^ 21), .realloc (some (2 ^ 46)) (2 ^ 22)]).map (·.live.length) =
        some 2 := by
    decide +kernel
  rcases Option.map_eq_some_iff.mp played with ⟨s, run, two⟩
  have reach : Reach modestCalls s := by
    apply play_reach _ (by decide) run
    intro call member _ _
    have modest : ∀ call ∈ [Call.malloc 16, .malloc (2 ^ 21), .realloc (some (2 ^ 46)) (2 ^ 22)],
        call.Modest := by decide
    exact modest call member
  exact ⟨s, reach, two, live_safe reach⟩

end Regions

section Metadata

variable {w : World} {g : Layout} {s : Session}

/-- The run on a node of a chunk in use: the only one at that address, on one list of one bin. -/
def World.RunAt (w : World) (addr : Nat) : Prop :=
  ∃ b run, (w.arena.entries (.run b)).count run = 1 ∧ (w.runs run).key = addr ∧
    ∀ b' run', run' ∈ w.arena.entries (.run b') → (w.runs run').key = addr → b' = b ∧ run' = run

/-- Every used node of a listed chunk has a run, and the other way round. -/
structure World.NodesMatch (w : World) : Prop where
  runs : ∀ chunk ∈ w.arena.chunkList, ∀ n, IsNode n →
    getBuddyTreeItem (w.chunks chunk).buddyTree n = .used →
      w.RunAt (nodeRun (w.chunks chunk).key n).ptr
  nodes : ∀ b, ∀ run ∈ w.arena.entries (.run b), ∃ chunk ∈ w.arena.chunkList, ∃ n, IsNode n ∧
    getBuddyTreeItem (w.chunks chunk).buddyTree n = .used ∧
      (w.runs run).key = (nodeRun (w.chunks chunk).key n).ptr

theorem Inv.nodesMatch (inv : Inv w g none) : w.NodesMatch where
  runs := by
    intro chunk listed n node used
    have live := ((inv.chunks chunk listed).inv.states.used n node).mp used
    rcases inv.cover chunk listed n live (by simp) with ⟨b, run, member, rfl, rfl⟩
    have key := (inv.runs b run member).key
    refine ⟨b, run, ?_, key, ?_⟩
    · exact List.count_eq_one_of_mem (inv.blocks.nodup (.run b)) member
    · intro b' run' member' key'
      exact inv.run_unique member member' (key'.trans key.symm)
  nodes := by
    intro b run member
    have known := inv.known b run member
    have place := inv.runs b run member
    have node := inv.node member
    exact ⟨_, known, g.node run, node,
      ((inv.chunks _ known).inv.states.used _ node).mpr place.live, place.key⟩

/-- After any calls, the metadata found for a pointer that the program has is that of the region
it was given, so freeing it does not abort; and the nodes in use of the chunks are the runs of
the bins. -/
theorem live_located (reach : Reach anyCalls s) :
    (∀ region ∈ s.live, ∃ o, s.world.history.origin region.ptr = some o ∧
      locateMetadataForPtr region.ptr s.world = .ok o.metadata s.world ∧
      ∀ env w', seallocFree env (some region.ptr) s.world ≠ .abort w' ∧
        seallocFree env (some region.ptr) s.world ≠ .crash w') ∧
    s.world.NodesMatch := by
  have inv := reach.inv
  rcases inv.inv with ⟨g, world⟩
  refine ⟨?_, world.nodesMatch⟩
  intro region member
  rcases inv.located region member with ⟨o, located⟩
  refine ⟨o, world.origin _ _ _ located, world.locate located, ?_⟩
  intro env w'
  have freed := seallocFree_wp (exits_mayEnd env) world located
  constructor
  · intro aborts
    unfold wp at freed
    rw [aborts] at freed
    exact freed
  · intro crashes
    unfold wp at freed
    rw [crashes] at freed
    exact freed

/-- A small region whose metadata is found after a huge one was freed. -/
theorem live_located_once : ∃ s, Reach anyCalls s ∧ s.live.length = 1 ∧
    ∀ region ∈ s.live, ∃ o, s.world.history.origin region.ptr = some o ∧
      locateMetadataForPtr region.ptr s.world = .ok o.metadata s.world ∧
      ∀ env w', seallocFree env (some region.ptr) s.world ≠ .abort w' ∧
        seallocFree env (some region.ptr) s.world ≠ .crash w' := by
  have played : (Session.play (.willing fun n => (n + 1) * 2 ^ 44) 3 (2 ^ 45)
      [.malloc 16, .malloc (2 ^ 21), .free (some (2 ^ 46))]).map (·.live.length) = some 1 := by
    decide +kernel
  rcases Option.map_eq_some_iff.mp played with ⟨s, run, one⟩
  have reach : Reach anyCalls s := play_reach (fun _ _ _ _ => trivial) (by decide) run
  exact ⟨s, reach, one, (live_located reach).1⟩

end Metadata

/-- What the counters and the lists of an initialised bin say about its runs. -/
structure World.BinCounts (w : World) (b : Nat) : Prop where
  avail : (w.arena.bins b).availRegs =
    ((w.arena.bins b).runListActive.map fun run => (w.runs run).navail).sum
  length : (w.arena.bins b).runListActiveCnt = (w.arena.bins b).runListActive.length
  once : ∀ run ∈ w.arena.entries (.run b), (w.arena.entries (.run b)).count run = 1 ∧
    ∀ c, run ∈ w.arena.entries (.run c) → c = b
  active : ∀ run ∈ w.arena.entries (.run b),
    (run ∈ (w.arena.bins b).runListActive ↔ 0 < (w.runs run).navail)
  inactive : ∀ run ∈ (w.arena.bins b).runListInactive,
    (w.runs run).nfreed < (w.arena.bins b).elems
  navail : ∀ run ∈ w.arena.entries (.run b),
    (w.runs run).navail = (w.runs run).count (w.arena.bins b).elems .free
  nfreed : ∀ run ∈ w.arena.entries (.run b),
    (w.runs run).nfreed = (w.runs run).count (w.arena.bins b).elems .allocFree
  minimum : binMinimumRegions - 1 ≤ (w.arena.bins b).availRegs

section Bins

variable {w : World} {g : Layout} {s : Session} {b : Nat}

theorem Inv.binCounts (inv : Inv w g none) (stocked : Stocked w)
    (ready : BinReady b (w.arena.bins b) w.runs) : w.BinCounts b where
  avail := ready.avail
  length := ready.count
  once := by
    intro run member
    refine ⟨List.count_eq_one_of_mem (inv.blocks.nodup (.run b)) member, ?_⟩
    exact fun c member' => inv.run_bin member member'
  active := by
    intro run member
    constructor
    · exact ready.active run
    · intro available
      rcases List.mem_append.mp member with active | inactive
      · exact active
      · have spent := (ready.inactive run inactive).1
        omega
  inactive := by
    intro run member
    rw [ready.elems]
    exact (ready.inactive run member).2
  navail := by
    intro run member
    rw [ready.elems]
    exact (inv.runs b run member).inv.navail
  nfreed := by
    intro run member
    rw [ready.elems]
    exact (inv.runs b run member).inv.nfreed
  minimum := by
    rcases stocked b with zero | enough
    · have size := ready.regSize
      have facts := classSize_facts b ready.isClass
      rw [zero] at size
      have none : Bin.zero.regSize = 0 := rfl
      omega
    · exact enough

/-- After any calls, the counters of every initialised bin count and its lists are what they
should be; and whatever a next call finds about them is as the code expects it. -/
theorem bins_counted (reach : Reach anyCalls s) :
    (∀ b, (s.world.arena.bins b).regSize ≠ 0 → s.world.BinCounts b) ∧
    ∀ env fuel (call : Call), call.Legal s → ∀ w',
      ((∃ result, call.run env fuel s.world = .ok result w') ∨
        call.run env fuel s.world = .exit w' ∨ call.run env fuel s.world = .crash w') →
      ∀ finding ∈ w'.history.findings, finding.Passes := by
  have inv := reach.inv
  rcases inv.inv with ⟨g, world⟩
  constructor
  · intro b used
    rcases world.bins b with zero | ready
    · rw [zero] at used
      exact absurd rfl used
    · exact world.binCounts inv.stocked ready
  · intro env fuel call legal w' ends
    have args := inv.legal legal
    rcases @Call.run_wp s.world g env fuel call world inv.stocked args.1 args.2 with
      spec | ⟨-, crash⟩
    · unfold wp at spec
      rcases ends with ⟨result, ok⟩ | exits | crashes
      · rw [ok] at spec
        rcases spec.inv with ⟨g', world'⟩
        exact world'.findings
      · rw [exits] at spec
        exact spec
      · rw [crashes] at spec
        exact spec.elim
    · rcases ends with ⟨result, ok⟩ | exits | crashes
      · rw [crash] at ok
        simp at ok
      · rw [crash] at exits
        simp at exits
      · rw [crash] at crashes
        rw [Outcome.crash.inj crashes.symm]
        exact world.findings

/-- A bin with two allocated regions. -/
theorem bins_counted_once : ∃ s, Reach anyCalls s ∧ s.live.length = 2 ∧
    ∀ b, (s.world.arena.bins b).regSize ≠ 0 → s.world.BinCounts b := by
  have played : (Session.play (.willing fun n => (n + 1) * 2 ^ 44) 3 (2 ^ 45)
      [.malloc 16, .calloc 1 16]).map (·.live.length) = some 2 := by
    decide +kernel
  rcases Option.map_eq_some_iff.mp played with ⟨s, run, two⟩
  have reach : Reach anyCalls s := play_reach (fun _ _ _ _ => trivial) (by decide) run
  exact ⟨s, reach, two, (bins_counted reach).1⟩

end Bins

end Sealloc
