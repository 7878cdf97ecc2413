import Sealloc.World.Realloc
import Sealloc.Library.Lists

/-! What `locate_metadata_for_ptr` finds: the metadata of every region of a run, allocated or
freed, and of every huge mapping; and nothing for a pointer that is not mapped. -/

namespace Sealloc

open Library Chunk

/-- The metadata of what was allocated from an origin. -/
def Origin.metadata : Origin → Metadata
  | .regular chunk b run => .regular chunk b (some run)
  | .huge addr => .huge addr

section Search

variable {chunks : Nat → Chunk} {ptr chunk : Nat} {info : RunInfo}

/-- The search over the chunks finds the only chunk that knows a run there. -/
theorem locateRun_found {entries : List Nat} (member : chunk ∈ entries)
    (low : (chunks chunk).key ≤ ptr) (high : ptr < (chunks chunk).key + chunkSizeBytes)
    (here : chunkGetRunPtr (chunks chunk) ptr = some info)
    (others : ∀ c ∈ entries, c ≠ chunk → chunkGetRunPtr (chunks c) ptr = none) :
    locateRun chunks ptr entries = some (chunk, info) := by
  induction entries with
  | nil => exact absurd member List.not_mem_nil
  | cons c rest ih =>
      rw [locateRun]
      by_cases same : c = chunk
      · rw [same, if_pos ⟨low, high⟩, here]
      · have inside : chunk ∈ rest := (List.mem_cons.mp member).resolve_left fun eq => same eq.symm
        have after := ih inside fun c member => others c (List.mem_cons_of_mem _ member)
        rw [others c List.mem_cons_self same, after]
        split <;> rfl

theorem locateRun_none {entries : List Nat}
    (missing : ∀ c ∈ entries, chunkGetRunPtr (chunks c) ptr = none) :
    locateRun chunks ptr entries = none := by
  induction entries with
  | nil => rfl
  | cons c rest ih =>
      have after := ih fun c member => missing c (List.mem_cons_of_mem _ member)
      rw [locateRun, missing c List.mem_cons_self, after]
      split <;> rfl

end Search

section Locate

variable {w : World} {g : Layout} {ptr : Nat}

/-- A run that `chunk_get_run_ptr` finds is live and has the byte it was asked for. -/
theorem Inv.getRun_owner (inv : Inv w g none) {chunk : Nat} {info : RunInfo}
    (member : chunk ∈ w.arena.chunkList)
    (found : chunkGetRunPtr (w.chunks chunk) ptr = some info) : Owns w g (.chunk chunk) ptr := by
  have place := (inv.chunks chunk member).inv
  rcases (chunkGetRunPtr_iff place ptr info).mp found with ⟨n, live, low, high, -⟩
  have size : chunkLeastRegionSizeBytes ≤ (nodeRun (w.chunks chunk).key n).size := by
    have some := nodeUnits_pos n
    unfold nodeRun
    exact Nat.le_mul_of_pos_left _ some
  exact inv.owns_live member live ⟨low, by omega⟩

/-- The regions of a run start in its first 16 KiB. -/
theorem region_first {b i : Nat} (isClass : b < 43) (inside : i < classElems b) :
    i * classSize b < chunkLeastRegionSizeBytes := by
  have facts := classSize_facts b isClass
  by_cases small : b < 36
  · have bytes : classRunBytes b = 16384 := by
      unfold classRunBytes
      rw [if_pos small]
    have upto : (i + 1) * classSize b ≤ classElems b * classSize b := Nat.mul_le_mul_right _ inside
    rw [Nat.succ_mul] at upto
    rw [leastRegion]
    omega
  · have one : classElems b = 1 := ((sizeToIdx_classSize b isClass).2.2.2 (by omega)).2
    have first : i = 0 := by omega
    rw [first, Nat.zero_mul, leastRegion]
    decide

/-- The first byte of a run is its chunk's. -/
theorem Inv.owns_key (inv : Inv w g none) {b run : Nat} (member : run ∈ w.arena.entries (.run b)) :
    (nodeRun (w.chunks (w.history.runChunk run)).key (g.node run)).Holds (w.runs run).key := by
  have key := (inv.runs b run member).key
  have size := (nodeRun_bounds (w.chunks (w.history.runChunk run)).key (inv.node member)).2.2
  unfold ChunkRun.Holds
  omega

/-- Runs at one address are the same. -/
theorem Inv.run_unique (inv : Inv w g none) {b b' run run' : Nat}
    (member : run ∈ w.arena.entries (.run b)) (member' : run' ∈ w.arena.entries (.run b'))
    (keys : (w.runs run').key = (w.runs run).key) : b' = b ∧ run' = run := by
  have place := inv.runs b run member
  have place' := inv.runs b' run' member'
  have known := inv.known b run member
  have known' := inv.known b' run' member'
  have holds := inv.owns_key member
  have holds' := inv.owns_key member'
  rw [keys] at holds'
  have owner := inv.owner _ _ _ (inv.owns_live known' place'.live holds')
    (inv.owns_live known place.live holds)
  rw [Owner.chunk.injEq] at owner
  rw [owner] at place' holds'
  have node := inv.same_node known place'.live place.live holds' holds
  have same := inv.same b' b run' run member' member owner node
  rw [same] at member'
  exact ⟨inv.run_bin member member', same⟩

/-- A run of a bin is found by its address. -/
theorem Inv.binGetRunByAddr_run (inv : Inv w g none) {b run : Nat}
    (member : run ∈ w.arena.entries (.run b)) :
    binGetRunByAddr w b (w.runs run).key = some run := by
  have unique : ∀ r ∈ w.arena.entries (.run b),
      decide ((w.runs r).key = (w.runs run).key) = true → r = run := by
    intro r inside same
    exact (inv.run_unique member inside (of_decide_eq_true same)).2
  have self : decide ((w.runs run).key = (w.runs run).key) = true := decide_eq_true rfl
  unfold binGetRunByAddr findRun
  by_cases active : run ∈ (w.arena.bins b).runListActive
  · have found : (w.arena.bins b).runListActive.find?
        (fun r => decide ((w.runs r).key = (w.runs run).key)) = some run :=
      find?_unique active self fun r inside => unique r (List.mem_append_left _ inside)
    rw [found]
  · have inactive : run ∈ (w.arena.bins b).runListInactive :=
      (List.mem_append.mp member).resolve_left active
    have missed : (w.arena.bins b).runListActive.find?
        (fun r => decide ((w.runs r).key = (w.runs run).key)) = none := by
      apply List.find?_eq_none.mpr
      intro r inside accepted
      have same := unique r (List.mem_append_left _ inside) accepted
      exact active (same ▸ inside)
    have found : (w.arena.bins b).runListInactive.find?
        (fun r => decide ((w.runs r).key = (w.runs run).key)) = some run :=
      find?_unique inactive self fun r inside => unique r (List.mem_append_right _ inside)
    rw [missed, found]

/-- What the chunks know about a region of a run, whatever its state. -/
theorem Inv.locateRun_region (inv : Inv w g none) {chunk b run : Nat} {s : BState}
    (region : Region w chunk b run ptr s) :
    ∃ info, locateRun w.chunks ptr w.arena.chunkList = some (chunk, info) ∧
      (if info.regSize > 0 then info.regSize else info.runSize) = classSize b ∧
      info.runPtr = (w.runs run).key := by
  have size := inv.region_pos region
  have owns := inv.region_owner region (Nat.le_refl ptr) (by omega)
  have holds := inv.region_run region (Nat.le_refl ptr) (by omega)
  rcases region with ⟨member, rfl, i, inside, rfl, -⟩
  have known := inv.known b run member
  have place := inv.runs b run member
  have facts := classSize_facts b place.isClass
  have first := region_first place.isClass inside
  have chunkInv := (inv.chunks _ known).inv
  have info : chunkGetRunPtr (w.chunks (w.history.runChunk run))
      ((w.runs run).key + i * classSize b) =
        some ⟨(w.runs run).key, classRunBytes b, if b < 36 then classSize b else 0⟩ := by
    apply (chunkGetRunPtr_iff chunkInv _ _).mpr
    refine ⟨g.node run, place.live, ?_, ?_, ?_⟩
    · rw [← place.key]
      exact Nat.le_add_right _ _
    · rw [← place.key]
      omega
    · rw [place.key, place.size, place.table]
  refine ⟨⟨(w.runs run).key, classRunBytes b, if b < 36 then classSize b else 0⟩, ?_, ?_, rfl⟩
  · apply locateRun_found known owns.2.1 owns.2.2.1 info
    intro c inList different
    cases other : chunkGetRunPtr (w.chunks c) ((w.runs run).key + i * classSize b) with
    | none => rfl
    | some info' =>
        have owner := inv.owner _ _ _ (inv.getRun_owner inList other) owns
        rw [Owner.chunk.injEq] at owner
        exact absurd owner different
  · by_cases small : b < 36
    · have positive : classSize b > 0 := by omega
      simp only [if_pos small, if_pos positive]
    · simp only [if_neg small, if_neg (Nat.lt_irrefl 0), classRunBytes]

/-- The bin of a run is in use, so that its class is found there. -/
theorem Inv.getBin_region (inv : Inv w g none) {chunk b run : Nat} {s : BState}
    (region : Region w chunk b run ptr s) :
    arenaGetBinByRegSize (classSize b) w = .ok b w := by
  have ready := inv.ready region.1
  have facts := classSize_facts b ready.isClass
  have nonzero : (w.arena.bins b).regSize ≠ 0 := by
    rw [ready.regSize]
    omega
  unfold arenaGetBinByRegSize
  rw [binIndex_classSize b ready.isClass, bind_apply, get_apply]
  simp only [if_neg nonzero, pure_apply]

/-- The metadata of a region of a run, whatever its state. -/
theorem Inv.locate_region (inv : Inv w g none) {chunk b run : Nat} {s : BState}
    (region : Region w chunk b run ptr s) :
    locateMetadataForPtr ptr w = .ok (.regular chunk b (some run)) w := by
  rcases inv.locateRun_region region with ⟨info, found, sized, key⟩
  unfold locateMetadataForPtr
  rw [bind_apply, get_apply]
  simp only [found, sized]
  rw [bind_apply, inv.getBin_region region]
  simp only [bind_apply, get_apply, pure_apply, key, inv.binGetRunByAddr_run region.1]

/-- No run is found where no chunk owns the byte. -/
theorem Inv.locateRun_unowned (inv : Inv w g none)
    (unowned : ∀ chunk, ¬ Owns w g (.chunk chunk) ptr) :
    locateRun w.chunks ptr w.arena.chunkList = none := by
  apply locateRun_none
  intro c inList
  cases other : chunkGetRunPtr (w.chunks c) ptr with
  | none => rfl
  | some info => exact absurd (inv.getRun_owner inList other) (unowned c)

theorem Inv.huge_start (inv : Inv w g none) {huge : Nat}
    (member : huge ∈ w.arena.hugeAllocList) : Owns w g (.huge huge) (w.huges huge).key := by
  have large := (inv.huges huge member).large
  exact ⟨member, Nat.le_refl _, by omega⟩

/-- No run is found at the start of a huge mapping. -/
theorem Inv.locateRun_huge (inv : Inv w g none) {huge : Nat}
    (member : huge ∈ w.arena.hugeAllocList) :
    locateRun w.chunks (w.huges huge).key w.arena.chunkList = none := by
  apply @Inv.locateRun_unowned w g (w.huges huge).key inv
  intro chunk owns
  have owner := inv.owner _ _ _ owns (inv.huge_start member)
  simp at owner

/-- The metadata of a huge mapping. -/
theorem Inv.locate_huge (inv : Inv w g none) {huge : Nat}
    (member : huge ∈ w.arena.hugeAllocList) :
    locateMetadataForPtr (w.huges huge).key w = .ok (.huge huge) w := by
  have missed := inv.locateRun_huge member
  have found : arenaFindHugeMapping w (w.huges huge).key = some huge := by
    unfold arenaFindHugeMapping
    apply find?_unique member (decide_eq_true rfl)
    intro h inside same
    have owns := inv.huge_start inside
    rw [of_decide_eq_true same] at owns
    have owner := inv.owner _ _ _ owns (inv.huge_start member)
    rw [Owner.huge.injEq] at owner
    exact owner
  unfold locateMetadataForPtr
  rw [bind_apply, get_apply]
  simp only [missed, found, pure_apply]

/-- Nothing is found where nothing is mapped. -/
theorem Inv.locate_unmapped (inv : Inv w g none) (unmapped : ¬ w.Mapped ptr) :
    locateMetadataForPtr ptr w = .ok .invalid w := by
  have missed := @Inv.locateRun_unowned w g ptr inv fun chunk owns =>
    unmapped (inv.owned _ _ owns)
  have found : arenaFindHugeMapping w ptr = none := by
    unfold arenaFindHugeMapping
    apply List.find?_eq_none.mpr
    intro h inside same
    have large := (inv.huges h inside).large
    have key := of_decide_eq_true same
    have owns : Owns w g (.huge h) ptr := ⟨inside, by omega, by omega⟩
    exact unmapped (inv.owned _ _ owns)
  unfold locateMetadataForPtr
  rw [bind_apply, get_apply]
  simp only [missed, found, pure_apply]

/-- The metadata of what is allocated. -/
theorem Inv.locate (inv : Inv w g none) {o : Origin} {len : Nat} (located : Located w ptr o len) :
    locateMetadataForPtr ptr w = .ok o.metadata w := by
  cases o with
  | regular chunk b run => exact inv.locate_region located.1
  | huge huge =>
      rcases located with ⟨member, rfl, -⟩
      exact inv.locate_huge member

/-- The bin of a region is initialised. -/
theorem Inv.region_regSize (inv : Inv w g none) {chunk b run : Nat} {s : BState}
    (region : Region w chunk b run ptr s) : (w.arena.bins b).regSize ≠ 0 := by
  have positive := inv.region_pos region
  rw [(inv.ready region.1).regSize]
  omega

/-- `run_validate_ptr` accepts a region exactly when it is allocated. -/
theorem Inv.validate_region (inv : Inv w g none) {chunk b run : Nat} {s : BState}
    (region : Region w chunk b run ptr s) :
    runValidatePtr (w.runs run) (w.arena.bins b) ptr ≠ none ↔ s = .alloc := by
  have size := Nat.pos_of_ne_zero (inv.region_regSize region)
  rcases region with ⟨member, -, i, -, rfl, state⟩
  have valid := @runValidatePtr_region (w.runs run) (w.arena.bins b) i size
  rw [(inv.ready member).regSize, state] at valid
  rw [valid]
  split
  · simp [*]
  · simp [*]

/-- A pointer that was given up is refused, and nothing changes. -/
theorem Inv.refuse (inv : Inv w g none) (spent : Spent w ptr ptr) (env : Env) :
    seallocFree env (some ptr) w = .abort w ∧
      ∀ fuel newSize, seallocRealloc env fuel (some ptr) newSize w = .abort w := by
  rcases spent with ⟨chunk, b, run, region, -⟩ | unmapped
  · have found := inv.locate_region region
    have nonzero := inv.region_regSize region
    have refused : runValidatePtr (w.runs run) (w.arena.bins b) ptr = none := by
      by_contra accepted
      have state := (inv.validate_region region).mp accepted
      simp at state
    have dealloc : runDeallocate (w.runs run) (w.arena.bins b) ptr = none := by
      unfold runDeallocate
      rw [refused]
      rfl
    constructor
    · unfold seallocFree
      simp only [bind_apply, found]
      unfold seallocFreeWithMetadata
      rw [bind_apply, get_apply]
      simp only [if_neg nonzero, dealloc]
      rfl
    · intro fuel newSize
      unfold seallocRealloc
      simp only [bind_apply, found, get_apply, if_neg nonzero, refused]
      rfl
  · have found := inv.locate_unmapped unmapped
    constructor
    · unfold seallocFree
      simp only [bind_apply, found]
      rfl
    · intro fuel newSize
      unfold seallocRealloc
      simp only [bind_apply, found]
      rfl

end Locate

end Sealloc
