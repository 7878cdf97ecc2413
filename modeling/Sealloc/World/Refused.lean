import Sealloc.World.Locate
import Sealloc.Library.NoAbort
import Sealloc.World.Session

/-! Which addresses `sealloc_free` and `sealloc_realloc` refuse, of all that there are. -/

namespace Sealloc

open Library Chunk

/-- The first byte behind the regions of a run, where the bits of its block that belong to no
region happen to read as an allocated one. -/
def StaleTail (w : World) (ptr : Nat) : Prop :=
  ∃ b, ∃ run ∈ w.arena.entries (.run b), classElems b * classSize b < classRunBytes b ∧
    ptr = (w.runs run).key + classElems b * classSize b ∧
    (w.runs run).state (classElems b) = .alloc

/-- The addresses that pass for allocated regions. -/
def Accepted (w : World) (ptr : Nat) : Prop :=
  (∃ o len, Located w ptr o len) ∨ StaleTail w ptr

theorem locateRun_some {chunks : Nat → Chunk} {ptr chunk : Nat} {info : RunInfo}
    {entries : List Nat} (found : locateRun chunks ptr entries = some (chunk, info)) :
    chunk ∈ entries ∧ chunkGetRunPtr (chunks chunk) ptr = some info := by
  induction entries with
  | nil => simp [locateRun] at found
  | cons c rest ih =>
      rw [locateRun] at found
      split at found
      · cases here : chunkGetRunPtr (chunks c) ptr with
        | none =>
            rw [here] at found
            have later := ih found
            exact ⟨List.mem_cons_of_mem _ later.1, later.2⟩
        | some info' =>
            rw [here] at found
            simp only [Option.some.injEq, Prod.mk.injEq] at found
            rw [← found.1, ← found.2]
            exact ⟨List.mem_cons_self, here⟩
      · have later := ih found
        exact ⟨List.mem_cons_of_mem _ later.1, later.2⟩

/-- A run that a chunk knows is not missed. -/
theorem locateRun_ne_none {chunks : Nat → Chunk} {ptr chunk : Nat} {info : RunInfo}
    {entries : List Nat} (member : chunk ∈ entries) (low : (chunks chunk).key ≤ ptr)
    (high : ptr < (chunks chunk).key + chunkSizeBytes)
    (here : chunkGetRunPtr (chunks chunk) ptr = some info) : locateRun chunks ptr entries ≠ none := by
  induction entries with
  | nil => exact absurd member List.not_mem_nil
  | cons c rest ih =>
      rw [locateRun]
      rcases List.mem_cons.mp member with rfl | inside
      · rw [if_pos ⟨low, high⟩, here]
        exact Option.some_ne_none _
      · split
        · cases chunkGetRunPtr (chunks c) ptr with
          | none => exact ih inside
          | some info' => exact Option.some_ne_none _
        · exact ih inside

section Refused

variable {w : World} {g : Layout} {ptr : Nat}

/-- The run whose first 16 KiB an address is in, and what is found for it. -/
structure InRun (w : World) (ptr chunk b run : Nat) : Prop where
  member : run ∈ w.arena.entries (.run b)
  home : w.history.runChunk run = chunk
  low : (w.runs run).key ≤ ptr
  high : ptr < (w.runs run).key + classRunBytes b
  located : locateMetadataForPtr ptr w = .ok (.regular chunk b (some run)) w

/-- What is found for an address of a run. -/
theorem Inv.locate_inRun (inv : Inv w g none) {chunk : Nat} {info : RunInfo}
    (found : locateRun w.chunks ptr w.arena.chunkList = some (chunk, info)) :
    ∃ b run, InRun w ptr chunk b run := by
  have here := locateRun_some found
  have place := inv.chunks chunk here.1
  rcases (chunkGetRunPtr_iff place.inv ptr info).mp here.2 with ⟨n, live, low, high, rfl⟩
  rcases inv.cover chunk here.1 n live (by simp) with ⟨b, run, member, rfl, rfl⟩
  have runPlace := inv.runs b run member
  have facts := classSize_facts b runPlace.isClass
  have first : Region w (w.history.runChunk run) b run (w.runs run).key ((w.runs run).state 0) :=
    ⟨member, rfl, 0, facts.2.2.2.1, by rw [Nat.zero_mul, Nat.add_zero], rfl⟩
  have sized : (if reportedSize (w.chunks (w.history.runChunk run)) (g.node run) > 0 then
      reportedSize (w.chunks (w.history.runChunk run)) (g.node run)
      else (nodeRun (w.chunks (w.history.runChunk run)).key (g.node run)).size) = classSize b := by
    rw [runPlace.table, runPlace.size]
    by_cases small : b < 36
    · rw [if_pos small, if_pos (by omega)]
    · rw [if_neg small, if_neg (Nat.lt_irrefl 0), classRunBytes, if_neg small]
  have least : chunkLeastRegionSizeBytes ≤ classRunBytes b := by
    rw [leastRegion, (classSize_facts b runPlace.isClass).2.2.2.2.2.2]
    exact Nat.le_mul_of_pos_right _ (Nat.two_pow_pos _)
  refine ⟨b, run, member, rfl, ?_, ?_, ?_⟩
  · rw [runPlace.key]
    exact low
  · rw [runPlace.key]
    omega
  · unfold locateMetadataForPtr
    rw [bind_apply, get_apply]
    simp only [found, sized]
    rw [bind_apply, inv.getBin_region first]
    simp only [bind_apply, get_apply, pure_apply, ← runPlace.key, inv.binGetRunByAddr_run member]

/-- Where no run is found, an address is that of a huge mapping or of nothing. -/
theorem locate_notRun (missed : locateRun w.chunks ptr w.arena.chunkList = none) :
    (∃ huge, Located w ptr (.huge huge) (w.huges huge).len) ∨
      locateMetadataForPtr ptr w = .ok .invalid w := by
  cases found : arenaFindHugeMapping w ptr with
  | some huge =>
      have member := List.mem_of_find?_eq_some found
      have key := List.find?_some found
      exact Or.inl ⟨huge, member, of_decide_eq_true key, rfl⟩
  | none =>
      right
      unfold locateMetadataForPtr
      rw [bind_apply, get_apply]
      simp only [missed, found, pure_apply]

/-- The bytes of a run are its node's. -/
theorem Inv.run_holds (inv : Inv w g none) {b run : Nat} (member : run ∈ w.arena.entries (.run b))
    (low : (w.runs run).key ≤ ptr) (high : ptr < (w.runs run).key + classRunBytes b) :
    (nodeRun (w.chunks (w.history.runChunk run)).key (g.node run)).Holds ptr := by
  have place := inv.runs b run member
  have key := place.key
  have size := place.size
  unfold ChunkRun.Holds
  omega

/-- An address is in one run only. -/
theorem Inv.inRun_unique (inv : Inv w g none) {b b' run run' : Nat}
    (member : run ∈ w.arena.entries (.run b)) (low : (w.runs run).key ≤ ptr)
    (high : ptr < (w.runs run).key + classRunBytes b) (member' : run' ∈ w.arena.entries (.run b'))
    (low' : (w.runs run').key ≤ ptr) (high' : ptr < (w.runs run').key + classRunBytes b') :
    b' = b ∧ run' = run := by
  have holds := inv.run_holds member low high
  have holds' := inv.run_holds member' low' high'
  have live := (inv.runs b run member).live
  have live' := (inv.runs b' run' member').live
  have known := inv.known b run member
  have owner := inv.owner _ _ _ (inv.owns_live (inv.known b' run' member') live' holds')
    (inv.owns_live known live holds)
  rw [Owner.chunk.injEq] at owner
  rw [owner] at holds' live'
  have node := inv.same_node known live' live holds' holds
  have same := inv.same b' b run' run member' member owner node
  rw [same] at member'
  exact ⟨inv.run_bin member member', same⟩

/-- In a run `run_validate_ptr` passes the addresses that pass for allocated regions. -/
theorem Inv.validate_inRun (inv : Inv w g none) {chunk b run : Nat}
    (inside : InRun w ptr chunk b run) :
    runValidatePtr (w.runs run) (w.arena.bins b) ptr ≠ none ↔ Accepted w ptr := by
  have ready := inv.ready inside.member
  have site := inv.runSite inside.member
  have low := inside.low
  have high := inside.high
  have size : 0 < (w.arena.bins b).regSize := by
    have least := site.size
    rw [ready.regSize]
    omega
  constructor
  · intro valid
    cases found : runValidatePtr (w.runs run) (w.arena.bins b) ptr with
    | none => exact absurd found valid
    | some i =>
        unfold runValidatePtr at found
        rw [ready.regSize] at found size
        simp only at found
        split at found
        · simp at found
        next aligned =>
          split at found
          · simp at found
          next allocated =>
            rw [not_not] at aligned allocated
            have whole := Nat.div_add_mod (ptr - (w.runs run).key) (classSize b)
            rw [aligned, Nat.add_zero, Nat.mul_comm] at whole
            rw [Option.some.inj found] at allocated whole
            have place : ptr = (w.runs run).key + i * classSize b := by omega
            have short : i * classSize b < classRunBytes b := by omega
            rcases site.index short with region | ⟨last, tail⟩
            · exact Or.inl ⟨.regular chunk b run, classSize b,
                ⟨inside.member, inside.home, i, region, place, allocated⟩, rfl⟩
            · rw [last] at place allocated
              exact Or.inr ⟨b, run, inside.member, tail, place, allocated⟩
  · have region : ∀ i, ptr = (w.runs run).key + i * classSize b →
        (w.runs run).state i = .alloc →
          runValidatePtr (w.runs run) (w.arena.bins b) ptr ≠ none := by
      intro i place allocated
      have valid := @runValidatePtr_region (w.runs run) (w.arena.bins b) i size
      rw [ready.regSize, ← place, allocated, if_pos rfl] at valid
      rw [valid]
      exact Option.some_ne_none i
    rintro (⟨o, len, located⟩ | ⟨b', run', member', tail, place, allocated⟩)
    · have same := (inv.locate located).symm.trans inside.located
      cases o with
      | huge huge => simp [Origin.metadata] at same
      | regular chunk' b' run' =>
          simp only [Origin.metadata, Outcome.ok.injEq, Metadata.regular.injEq, Option.some.injEq,
            and_true] at same
          rcases same with ⟨rfl, rfl, rfl⟩
          rcases located.1 with ⟨-, -, i, -, place, allocated⟩
          exact region i place allocated
    · rcases inv.inRun_unique inside.member low high member' (by omega) (by omega) with ⟨rfl, rfl⟩
      exact region _ place allocated

end Refused

section Aborts

variable {w : World} {env : Env}

theorem splitmix_noAbort : NoAbort (splitmix32 env) := fun _ _ aborts => nomatch aborts

theorem munmap_noAbort (ptr len : Nat) : NoAbort (munmap env ptr len) := by
  intro s t aborts
  unfold munmap at aborts
  split at aborts
  · simp at aborts
  · split at aborts <;> simp at aborts

theorem platformUnmap_noAbort (ptr len : Nat) : NoAbort (platformUnmap env ptr len) := by
  refine .bind (munmap_noAbort ptr len) fun errno => ?_
  cases errno with
  | none => exact .pure ()
  | some errno => exact .bind (.modify _) fun _ => .exit

theorem internalFreeNode_noAbort (ia t : IntAlloc) (found : Option (Nat × Nat)) :
    internalFreeNode ia found ≠ .abort t := by
  cases found with
  | none => exact fun aborts => nomatch aborts
  | some place => exact fun aborts => nomatch aborts

theorem internalFree_noAbort (root dest : Nat) : NoAbort (internalFree root dest) :=
  fun ia t => internalFreeNode_noAbort ia t _

theorem arenaInternalFree_noAbort (ptr : Nat) : NoAbort (arenaInternalFree ptr) := by
  refine .bind .get fun w => ?_
  split
  · exact .exit
  · exact .zoom (internalFree_noAbort _ _)

theorem onChunkDeallocateRun_noAbort (chunk runPtr : Nat) :
    NoAbort (onChunkDeallocateRun env chunk runPtr) := by
  refine .bind .get fun w => ?_
  split
  · exact .exit
  · exact .bind (platformUnmap_noAbort _ _) fun _ => .bind (.modify _) fun _ => .pure _

theorem deleteRun_noAbort (chunk b run : Nat) : NoAbort (deleteRun env chunk b run) := by
  refine .bind .get fun w => .bind ?_ fun _ =>
    .bind (onChunkDeallocateRun_noAbort _ _) fun whole => .ite ?_ (arenaInternalFree_noAbort run)
  · exact .bind .get fun w => .bind (.modify _) fun _ => .modify _
  · exact .bind (.bind (.modify _) fun _ => arenaInternalFree_noAbort chunk) fun _ =>
      arenaInternalFree_noAbort run

end Aborts

section Pointers

variable {w : World} {g : Layout} {ptr : Nat} {env : Env}

/-- What is not accepted is refused before anything is done. -/
theorem Inv.refuse_unaccepted (inv : Inv w g none) (bad : ¬ Accepted w ptr) :
    seallocFree env (some ptr) w = .abort w ∧
      ∀ fuel newSize, seallocRealloc env fuel (some ptr) newSize w = .abort w := by
  cases found : locateRun w.chunks ptr w.arena.chunkList with
  | none =>
      rcases locate_notRun found with ⟨huge, located⟩ | invalid
      · exact absurd (Or.inl ⟨_, _, located⟩) bad
      · constructor
        · unfold seallocFree
          simp only [bind_apply, invalid]
          rfl
        · intro fuel newSize
          unfold seallocRealloc
          simp only [bind_apply, invalid]
          rfl
  | some result =>
      rcases inv.locate_inRun found with ⟨b, run, inside⟩
      have refused : runValidatePtr (w.runs run) (w.arena.bins b) ptr = none := by
        by_contra accepted
        exact bad ((inv.validate_inRun inside).mp accepted)
      have nonzero : (w.arena.bins b).regSize ≠ 0 := by
        have least := (inv.runSite inside.member).size
        rw [(inv.ready inside.member).regSize]
        omega
      have dealloc : runDeallocate (w.runs run) (w.arena.bins b) ptr = none := by
        unfold runDeallocate
        rw [refused]
        rfl
      constructor
      · unfold seallocFree
        simp only [bind_apply, inside.located]
        unfold seallocFreeWithMetadata
        rw [bind_apply, get_apply]
        simp only [if_neg nonzero, dealloc]
        rfl
      · intro fuel newSize
        unfold seallocRealloc
        simp only [bind_apply, inside.located, get_apply, if_neg nonzero, refused]
        rfl

/-- Only small and medium runs have a tail, and it is in their first 16 KiB. -/
theorem Inv.locate_tail (inv : Inv w g none) {b run : Nat} (member : run ∈ w.arena.entries (.run b))
    (tail : classElems b * classSize b < classRunBytes b)
    (place : ptr = (w.runs run).key + classElems b * classSize b) :
    locateRun w.chunks ptr w.arena.chunkList ≠ none := by
  have runPlace := inv.runs b run member
  have known := inv.known b run member
  have first : classRunBytes b = chunkLeastRegionSizeBytes := by
    have all : ∀ c < 43, classElems c * classSize c < classRunBytes c →
        classRunBytes c = chunkLeastRegionSizeBytes := by decide +kernel
    exact all b runPlace.isClass tail
  have holds := @Inv.run_holds w g ptr inv b run member (by omega) (by omega)
  have owns := inv.owns_live known runPlace.live holds
  have key := runPlace.key
  have info := (chunkGetRunPtr_iff (inv.chunks _ known).inv ptr _).mpr
    ⟨g.node run, runPlace.live, by omega, by omega, rfl⟩
  exact locateRun_ne_none known owns.2.1 owns.2.2.1 info

/-- What is accepted is freed, or the process ends while a run is taken down. -/
theorem Inv.free_accepted (inv : Inv w g none) (good : Accepted w ptr) (w' : World) :
    seallocFree env (some ptr) w ≠ .abort w' := by
  by_cases isLocated : ∃ o len, Located w ptr o len
  · rcases isLocated with ⟨o, len, located⟩
    intro aborts
    have spec := seallocFree_wp (exits_mayEnd env) inv located
    unfold wp at spec
    rw [aborts] at spec
    exact spec
  · rcases good.resolve_left isLocated with ⟨b, run, member, tail, place, allocated⟩
    cases found : locateRun w.chunks ptr w.arena.chunkList with
    | none => exact absurd found (inv.locate_tail member tail place)
    | some result =>
        rcases inv.locate_inRun found with ⟨b', run', inside⟩
        have valid := (inv.validate_inRun inside).mpr good
        have nonzero : (w.arena.bins b').regSize ≠ 0 := by
          have least := (inv.runSite inside.member).size
          rw [(inv.ready inside.member).regSize]
          omega
        unfold seallocFree
        simp only [bind_apply, inside.located]
        unfold seallocFreeWithMetadata runDeallocate
        rw [bind_apply, get_apply]
        simp only [if_neg nonzero]
        cases passed : runValidatePtr (w.runs run') (w.arena.bins b') ptr with
        | none => exact absurd passed valid
        | some i =>
            exact NoAbort.bind (.modify _) (fun _ => .ite (deleteRun_noAbort _ _ _) (.pure ()))
              w w'

/-- `sealloc_free` of an address refuses it, and changes nothing, exactly if it is neither an
allocated region nor a left-over tail that reads as one; and what `sealloc_free` refuses is
refused by `sealloc_realloc`. -/
theorem Inv.free_refuses (inv : Inv w g none) :
    (seallocFree env (some ptr) w = .abort w ↔ ¬ Accepted w ptr) ∧
      (¬ Accepted w ptr → ∀ fuel newSize,
        seallocRealloc env fuel (some ptr) newSize w = .abort w) := by
  refine ⟨⟨?_, fun bad => (inv.refuse_unaccepted bad).1⟩, fun bad =>
    (@Inv.refuse_unaccepted w g ptr env inv bad).2⟩
  intro aborts good
  exact inv.free_accepted good w aborts

end Pointers

end Sealloc
