import Sealloc.World.Balance
import Sealloc.Chunk.History

/-! What the allocator keeps is of use: every run has a region that the program has or has yet to
get, and every chunk has pages. -/

namespace Sealloc

open Library Chunk

section Trees

variable {sh : Short}

/-- A run that is allocated does not unmap its chunk. -/
theorem chunkAllocateRun_pruned {ck : Chunk} (rand : Nat → Nat) (runSize regSize : Nat)
    (some : ¬ chunkIsUnmapped ck) :
    ¬ chunkIsUnmapped (chunkAllocateRun sh rand ck runSize regSize).chunk := by
  unfold chunkAllocateRun
  simp only
  split
  · exact some
  · unfold chunkIsUnmapped
    simp only [(chunkAllocateWithNode_reindexed _ _ _ _ _).2]
    unfold getBuddyTreeItem setBuddyTreeItem
    by_cases root : (pickNode rand ck (chunkBuddyTreeDepth - size2idx runSize)).1 - 1 = 1 - 1
    · rw [root, getCrumb_setCrumb_same, ChunkNode.ofByte_code]
      exact ChunkNode.noConfusion
    · rw [getCrumb_setCrumb_other _ _ (Ne.symm root)]
      exact some

theorem chunkInit_pruned (ck : Chunk) (heap : Nat) :
    ¬ chunkIsUnmapped (chunkInit .wrapping ck heap) := by
  intro whole
  have root : IsNode 1 := ⟨by decide, by decide⟩
  rcases (((chunkInit_inv ck heap).states.unmapped 1 root).mp whole).exists_below with
    ⟨run, member, -⟩
  exact List.not_mem_nil member

end Trees

/-- No chunk on the list is unmapped as a whole. -/
def World.Pruned (w : World) : Prop :=
  ∀ chunk ∈ w.arena.chunkList, ¬ chunkIsUnmapped (w.chunks chunk)

/-- A step that leaves no chunk unmapped as a whole where none was. -/
def Prunes (w w' : World) : Prop := w.Pruned → w'.Pruned

instance : IsPreorder World Prunes where
  refl _ := id
  trans _ _ _ first second := fun pruned => second (first pruned)

section Maps

variable {w w' : World} {env : Env}

theorem Prunes.quiet (chunkList : w'.arena.chunkList = w.arena.chunkList)
    (chunks : w'.chunks = w.chunks) : Prunes w w' := by
  intro pruned
  unfold World.Pruned
  rw [chunkList, chunks]
  exact pruned

theorem Quiet.prunes (quiet : Quiet w w') : Prunes w w' := .quiet quiet.chunkList quiet.chunks

theorem quiet_pruned {α : Type} {x : Prog World α} (quiet : Steps Quiet x) : Steps Prunes x :=
  quiet.mono Quiet.prunes

theorem mmap_pruned (hint len : Nat) : Steps Prunes (mmap env hint len) := by
  intro w reply w' run
  unfold mmap at run
  split at run
  · injection run with value state
    exact .quiet (by rw [← state]; rfl) (by rw [← state]; rfl)
  · split at run
    · injection run with value state
      exact .quiet (by rw [← state]; rfl) (by rw [← state]; rfl)
    · split at run
      · injection run with value state
        exact .quiet (by rw [← state]; rfl) (by rw [← state]; rfl)
      · injection run with value state
        exact .quiet (by rw [← state]; rfl) (by rw [← state]; rfl)

theorem platformMapProbeLoop_pruned (probe ceiling len fuel : Nat) : ∀ newProbe,
    Steps Prunes (platformMapProbeLoop env probe ceiling len fuel newProbe) := by
  induction fuel with
  | zero => exact fun _ _ => wlp_outOfFuel
  | succ fuel ih =>
      intro newProbe
      unfold platformMapProbeLoop
      refine .bind (mmap_pruned newProbe len) fun reply => ?_
      cases reply with
      | granted map => exact .ite (ih newProbe) (.ite (.pure _) (.pure _))
      | failed errno =>
          cases errno with
          | eexist => exact .ite (.pure _) (ih _)
          | einval => exact .pure _
          | enomem => exact .pure _
          | other => exact .pure _

theorem platformMapProbe_pruned (fuel probe ceiling len : Nat) :
    Steps Prunes (platformMapProbe env fuel probe ceiling len) := by
  unfold platformMapProbe
  exact .ite (.pure _) (platformMapProbeLoop_pruned probe ceiling len fuel probe)

theorem arenaMorecore_pruned {which : ProbePtr} {reset : Prog World Unit}
    (resets : Steps Quiet reset) (fuel size : Nat) (ceil : Arena → Nat) :
    Steps Prunes (arenaMorecore env fuel which reset size ceil) := by
  unfold arenaMorecore
  generalize fuel = inner
  have loop : ∀ fuel, Steps Prunes (arenaMorecoreLoop env inner which reset size ceil fuel) := by
    intro fuel
    induction fuel with
    | zero => exact fun _ => wlp_outOfFuel
    | succ fuel ih =>
        unfold arenaMorecoreLoop
        refine .bind .get fun w => .bind (platformMapProbe_pruned _ _ _ _) fun out =>
          .bind (quiet_pruned (setProbe_quiet _ _)) fun _ => ?_
        cases out.1 with
        | ok => exact .pure _
        | ceilingHit => exact .bind (quiet_pruned resets) fun _ => ih
        | differentAddress => exact .bind (quiet_pruned resets) fun _ => .pure _
        | errUnknown => exact ih
        | errNomem => exact ih
        | errInval => exact ih
  exact loop inner

theorem platformUnmap_pruned (ptr len : Nat) : Steps Prunes (platformUnmap env ptr len) := by
  intro w
  refine wlp_mono (platformUnmap_unmaps ptr len w) ?_
  intro _ w' unmapped
  rw [unmapped]
  exact .quiet rfl rfl

theorem arenaInternalAlloc_pruned (fuel size : Nat) :
    Steps Prunes (arenaInternalAlloc env fuel size) := by
  unfold arenaInternalAlloc
  refine .bind .get fun w => .bind (quiet_pruned (internalAllocFrom_quiet size _)) fun found => ?_
  cases found with
  | some alloc => exact .pure _
  | none =>
      exact .bind (arenaMorecore_pruned (resetPtrStart_quiet _) fuel _ _) fun map =>
        .bind (quiet_pruned (skipMapping_quiet _ _ _)) fun _ =>
          .bind (.modify fun w => .quiet rfl rfl) fun _ =>
            .bind (.modify fun w => .quiet rfl rfl) fun _ => quiet_pruned (onIntAlloc_quiet _ _)

end Maps

section Allocation

variable {env : Env}

/-- A chunk on the list is written that is not unmapped, or none on the list is. -/
theorem setChunk_pruned {w : World} {chunk : Nat} {ck : Chunk}
    (some : chunk ∈ w.arena.chunkList → ¬ chunkIsUnmapped (w.chunks chunk) → ¬ chunkIsUnmapped ck) :
    Prunes w (w.setChunk chunk ck) := by
  intro pruned other listed
  by_cases here : other = chunk
  · rw [here] at listed ⊢
    rw [setChunk_same]
    exact some listed (pruned chunk listed)
  · rw [setChunk_other w here]
    exact pruned other listed

theorem onChunkAllocateRun_pruned (chunk runSize regSize : Nat) :
    Steps Prunes (onChunkAllocateRun env chunk runSize regSize) := by
  intro w result w' run
  unfold onChunkAllocateRun at run
  injection run with value state
  rw [← state]
  have drawn : ∀ draws, Prunes w (w.draw32 draws) := fun _ => .quiet rfl rfl
  refine trans_of Prunes (drawn _) (setChunk_pruned fun _ whole => ?_)
  exact chunkAllocateRun_pruned _ _ _ whole

theorem arenaAllocateChunk_pruned (fuel : Nat) : Steps Prunes (arenaAllocateChunk env fuel) := by
  unfold arenaAllocateChunk
  refine .bind (arenaInternalAlloc_pruned fuel _) fun chunkMeta =>
    .bind (arenaMorecore_pruned resetChunkPtrStart_quiet fuel _ _) fun ptr =>
      .bind (quiet_pruned (skipMapping_quiet _ _ _)) fun _ => ?_
  cases chunkMeta with
  | none => exact .crash
  | some chunk =>
      intro w
      simp only [wlp_bind, wlp_modify, wlp_pure]
      intro pruned other listed
      by_cases here : other = chunk
      · rw [here]
        change ¬ chunkIsUnmapped ((w.setChunk chunk _).chunks chunk)
        rw [setChunk_same]
        exact chunkInit_pruned _ _
      · change ¬ chunkIsUnmapped ((w.setChunk chunk _).chunks other)
        rw [setChunk_other w here]
        exact pruned other ((List.mem_cons.mp listed).resolve_left here)

theorem arenaAllocateHugeMapping_pruned (fuel len : Nat) :
    Steps Prunes (arenaAllocateHugeMapping env fuel len) := by
  unfold arenaAllocateHugeMapping
  refine .bind (arenaInternalAlloc_pruned fuel _) fun found => ?_
  cases found with
  | none => exact .crash
  | some huge =>
      exact .bind (arenaMorecore_pruned (resetPtrStart_quiet _) fuel _ _) fun map =>
        .bind (.modify fun w => .quiet rfl rfl) fun _ =>
          .bind (quiet_pruned (skipMapping_quiet _ _ _)) fun _ =>
            .bind (.modify fun w => .quiet rfl rfl) fun _ =>
              .bind (quiet_pruned (setOrigin_quiet _ _)) fun _ => .pure _

theorem allocates_pruned {fuel : Nat} : Allocates env fuel Prunes where
  quiet := Quiet.prunes
  internal := arenaInternalAlloc_pruned fuel
  chunk := arenaAllocateChunk_pruned fuel
  run := onChunkAllocateRun_pruned
  huge := arenaAllocateHugeMapping_pruned fuel

theorem arenaDeallocateHugeMapping_pruned (huge : Nat) :
    Steps Prunes (arenaDeallocateHugeMapping env huge) := by
  unfold arenaDeallocateHugeMapping
  exact .bind .get fun w => .bind (platformUnmap_pruned _ _) fun _ =>
    .bind (.modify fun w => .quiet rfl rfl) fun _ => quiet_pruned (arenaInternalFree_quiet huge)

theorem reallocHuge_pruned (fuel huge newSize : Nat) :
    Steps Prunes (reallocHuge env fuel huge newSize) := by
  unfold reallocHuge arenaReallocateHugeMapping
  refine .ite (.bind ?_ fun _ => .bind .get fun w => .pure _)
    (.bind (seallocMalloc_steps allocates_pruned newSize) fun found => ?_)
  · exact .bind (arenaMorecore_pruned (resetPtrStart_quiet _) fuel _ _) fun map =>
      .bind (quiet_pruned (skipMapping_quiet _ _ _)) fun _ => .bind .get fun w =>
        .bind (quiet_pruned (memcpy_quiet _ _ _)) fun _ => .bind (platformUnmap_pruned _ _) fun _ =>
          .bind (.modify fun w => .quiet rfl rfl) fun _ => quiet_pruned (setOrigin_quiet _ _)
  · cases found with
    | none => exact .pure _
    | some newReg =>
        exact .bind .get fun w => .bind (quiet_pruned (memcpy_quiet _ _ _)) fun _ =>
          .bind (arenaDeallocateHugeMapping_pruned huge) fun _ => .pure _

end Allocation

section Release

variable {w : World} {g : Layout} {env : Env} {b run i : Nat} {value : Run}

/-- A chunk leaves the list with its last run. -/
theorem deleteRun_pruned (inv : Inv w g none) (inactive : run ∈ (w.arena.bins b).runListInactive)
    (key : value.key = (w.runs run).key) :
    wlp (deleteRun env (w.history.runChunk run) b run) (fun _ w' => w.Pruned → w'.Pruned)
      (w.setRun run (w.arena.bins b).runMetaSize value) := by
  have known := inv.known b run (List.mem_append_right _ inactive)
  have dropped := @Inv.dropRun w g b run value inv inactive
  refine wlp_of_eq (inv.deleteRun_run inactive key) ?_
  rw [wlp_bind]
  refine wlp_mono (wlp_of_wp (onChunkDeallocateRun_wp (exits_mayEnd env) dropped)) ?_
  intro whole w₁ post
  rcases post with ⟨ck, rfl, inv₁, isWhole⟩
  generalize after : (w.withoutRun b run value).withoutNode (w.history.runChunk run)
    (g.node run) ck = w₂ at inv₁
  have list : w₂.arena.chunkList = w.arena.chunkList := by
    rw [← after]
    rfl
  have others : ∀ chunk, chunk ≠ w.history.runChunk run → w₂.chunks chunk = w.chunks chunk := by
    intro chunk different
    rw [← after]
    exact setChunk_other _ different
  by_cases isTrue : whole = true
  · rw [if_pos isTrue, wlp_bind]
    unfold arenaDeallocateChunk
    simp only [wlp_bind, wlp_modify]
    refine wlp_mono (arenaInternalFree_quiet _ _) ?_
    intro _ w₃ first
    refine wlp_mono (arenaInternalFree_quiet _ _) ?_
    intro _ w₄ second pruned
    apply second.prunes
    apply first.prunes
    intro chunk listed
    have kept := (inv₁.blocks.nodup .chunk).mem_erase_iff.mp listed
    have stays : chunk ∈ w₂.arena.chunkList := kept.2
    rw [list] at stays
    change ¬ chunkIsUnmapped (w₂.chunks chunk)
    rw [others chunk kept.1]
    exact pruned chunk stays
  · rw [if_neg isTrue]
    refine wlp_mono (arenaInternalFree_quiet _ _) ?_
    intro _ w₃ first pruned
    apply first.prunes
    intro chunk listed
    by_cases same : chunk = w.history.runChunk run
    · intro unmapped
      have root : IsNode 1 := ⟨by decide, by decide⟩
      have gone := ((inv₁.chunks chunk listed).inv.states.unmapped 1 root).mp unmapped
      rw [same] at gone
      exact isTrue (isWhole.mpr gone)
    · rw [list] at listed
      rw [others chunk same]
      exact pruned chunk listed

theorem seallocFreeWithMetadata_pruned {chunk ptr : Nat} (inv : Inv w g none)
    (region : Region w chunk b run ptr .alloc) :
    wlp (seallocFreeWithMetadata env chunk b run ptr) (fun _ w' => w.Pruned → w'.Pruned) w := by
  rcases region with ⟨member, rfl, i, inside, rfl, alloc⟩
  have nonzero := inv.region_regSize ⟨member, rfl, i, inside, rfl, alloc⟩
  rcases runMarkFreed_inv (inv.runs b run member).inv inside alloc with ⟨-, -, -, key, -⟩
  unfold seallocFreeWithMetadata
  simp only [wlp_bind, wlp_get]
  rw [if_neg nonzero, inv.runDeallocate_alloc member alloc]
  simp only [wlp_bind, wlp_modify]
  by_cases freeable : runIsFreeable (runMarkFreed (w.runs run) i) (w.arena.bins b)
  · rw [if_pos freeable]
    exact deleteRun_pruned inv (inv.emptied member inside alloc freeable).1 key
  · rw [if_neg freeable, wlp_pure]
    exact Prunes.quiet rfl rfl

theorem seallocFree_pruned {p len : Nat} {o : Origin} (inv : Inv w g none)
    (located : Located w p o len) :
    wlp (seallocFree env (some p)) (fun _ w' => w.Pruned → w'.Pruned) w := by
  unfold seallocFree
  rw [wlp_bind]
  refine wlp_of_ok (inv.locate located) ?_
  cases o with
  | regular chunk b run => exact seallocFreeWithMetadata_pruned inv located.1
  | huge huge => exact arenaDeallocateHugeMapping_pruned huge w

/-- The old region is copied and freed after the new one was allocated. -/
theorem Grows.freed_pruned {w₁ : World} {chunk ptr len : Nat} {copy : Copy} (grows : Grows w w₁)
    (after : ∃ g, Inv w₁ g none) (located : Located w ptr (.regular chunk b run) len)
    (pruned : Prunes w w₁) :
    wlp (seallocFreeWithMetadata env chunk b run ptr) (fun _ w' => w.Pruned → w'.Pruned)
      (w₁.copyBytes copy) := by
  rcases after with ⟨g₁, inv₁⟩
  have still := grows.keeps.located ptr _ len id located
  refine wlp_mono (seallocFreeWithMetadata_pruned (inv₁.copyBytes copy) still.1) ?_
  exact fun _ w' freed before => freed (pruned before)

theorem reallocRegular_pruned {fuel chunk ptr len size : Nat} (inv : Inv w g none)
    (stocked : Stocked w) (located : Located w ptr (.regular chunk b run) len)
    (word : size < 2 ^ 64) (sane : size = 0 → w.arena.bins 36 ≠ Bin.zero) :
    wlp (reallocRegular env fuel chunk b run ptr size) (fun _ w' => w.Pruned → w'.Pruned) w := by
  unfold reallocRegular
  simp only [wlp_bind, wlp_get]
  by_cases large : isSizeHuge size
  · simp only [if_pos large, wlp_bind]
    refine wlp_mono (wlp_both (@arenaAllocateHugeMapping_wp mayEnd w g env fuel (alignupPage size)
      inv ((alignupPage_huge large word).imp And.left And.left) (alignupPage_aligned size) trivial)
        (arenaAllocateHugeMapping_pruned fuel _ w)) ?_
    rintro huge w₁ ⟨⟨made, -, -⟩, pruned⟩
    simp only [wlp_get, memcpy, wlp_modify]
    refine wlp_mono (made.grows.freed_pruned made.inv located pruned) ?_
    intro _ w' freed
    simpa using freed
  · have isClass := realloc_class sane large
    simp only [if_neg large, wlp_bind]
    refine wlp_mono (wlp_both (@allocateRegular_wp mayEnd w g env fuel size inv stocked isClass.1
      isClass.2 fun _ => trivial) (allocateRegular_steps allocates_pruned size w)) ?_
    rintro q w₁ ⟨⟨allocated, -⟩, pruned⟩
    simp only [wlp_get, memcpy, wlp_modify]
    refine wlp_mono (allocated.grows.freed_pruned allocated.inv located pruned) ?_
    intro _ w' freed
    simpa using freed

theorem Call.run_pruned {fuel : Nat} {call : Call} (inv : Inv w g none) (stocked : Stocked w)
    (words : call.Words) (located : ∀ p, call.old = some p → ∃ o len, Located w p o len) :
    wlp (call.run env fuel) (fun _ w' => w.Pruned → w'.Pruned) w := by
  cases call with
  | malloc size => exact seallocMalloc_steps allocates_pruned size w
  | calloc nmemb size => exact seallocCalloc_steps allocates_pruned nmemb size w
  | free ptr =>
      unfold Call.run
      rw [wlp_bind]
      cases ptr with
      | none => exact wlp_of_ok rfl ((wlp_pure _).mpr id)
      | some p =>
          rcases located p rfl with ⟨o, len, found⟩
          refine wlp_mono (seallocFree_pruned inv found) ?_
          exact fun _ w' freed => (wlp_pure _).mpr freed
  | realloc ptr size =>
      cases ptr with
      | none => exact seallocMalloc_steps allocates_pruned size w
      | some p =>
          rcases located p rfl with ⟨o, len, found⟩
          intro r w' run
          have sane := inv.realloc_sane found run
          suffices holds : wlp (seallocRealloc env fuel (some p) size)
              (fun _ w' => w.Pruned → w'.Pruned) w from holds r w' run
          refine wlp_of_eq (bind_ok (inv.locate found)) ?_
          cases o with
          | huge huge => exact reallocHuge_pruned fuel huge _ w
          | regular chunk b r =>
              have nonzero := inv.region_regSize found.1
              have valid := (inv.validate_region found.1).mpr rfl
              simp only [Origin.metadata, wlp_bind, wlp_get, if_neg nonzero, if_neg valid]
              apply reallocRegular_pruned inv stocked found words
              intro nothing
              rcases sane nothing with ⟨huge, impossible⟩ | used
              · simp at impossible
              · exact used

end Release

section Kept

variable {w : World} {g : Layout}

/-- A run on a list of its bin is not freeable. -/
theorem Inv.not_freeable (inv : Inv w g none) {b run : Nat}
    (member : run ∈ w.arena.entries (.run b)) : (w.runs run).nfreed < classElems b := by
  have ready := inv.ready member
  have place := (inv.runs b run member).inv
  rcases List.mem_append.mp member with active | inactive
  · have available := ready.active run active
    have counts := @Run.count_add_le (w.runs run) (classElems b) .free .allocFree (by decide)
    rw [← place.navail, ← place.nfreed] at counts
    omega
  · exact (ready.inactive run inactive).2

/-- One of its regions is allocated or was not handed out yet. -/
theorem Inv.run_useful (inv : Inv w g none) {b run : Nat}
    (member : run ∈ w.arena.entries (.run b)) : ∃ i < classElems b,
      (w.runs run).state i = .free ∨ (w.runs run).state i = .alloc := by
  have place := (inv.runs b run member).inv
  have less := inv.not_freeable member
  by_contra none
  have all : ∀ i < classElems b, (w.runs run).state i = .allocFree := by
    intro i inside
    have valid := place.valid i inside
    cases state : (w.runs run).state i with
    | free => exact absurd ⟨i, inside, Or.inl state⟩ none
    | alloc => exact absurd ⟨i, inside, Or.inr state⟩ none
    | allocFree => rfl
    | invalid => exact absurd state valid
  have full : (w.runs run).count (classElems b) .allocFree = classElems b := by
    unfold Run.count
    rw [Finset.filter_true_of_mem fun i small => all i (Finset.mem_range.mp small),
      Finset.card_range]
  rw [place.nfreed, full] at less
  exact lt_irrefl _ less

/-- A chunk that is not unmapped as a whole has a byte. -/
theorem ChunkPlace.some_backed {ck : Chunk} {live dead : List Nat} (place : ChunkPlace ck live dead)
    (some : ¬ chunkIsUnmapped ck) : ∃ x, Backed ck x := by
  have root : IsNode 1 := ⟨by decide, by decide⟩
  have notGone : ¬ Gone dead 1 := fun gone => some ((place.inv.states.unmapped 1 root).mpr gone)
  have exposed : ∀ run ∈ dead, Below run 1 → run = 1 := by
    intro run member below
    have low := (place.inv.nodes run (List.mem_append_right _ member)).1
    have high := below_le below
    omega
  have leaf : ∃ leaf, InLevel 11 leaf ∧ ∀ run ∈ dead, ¬ Below run leaf := by
    by_contra none
    refine notGone (gone_of_leaves 11 0 1 rfl ⟨by decide, by decide⟩ ?_ exposed)
    intro leaf isLeaf _
    by_contra outside
    exact none ⟨leaf, isLeaf, fun run member below => outside ⟨run, member, below⟩⟩
  rcases leaf with ⟨leaf, ⟨low, high⟩, outside⟩
  have size : chunkSizeBytes = 16384 * 2048 := rfl
  have start : ck.key ≤ ck.key + (leaf - 2048) * 16384 ∧
      ck.key + (leaf - 2048) * 16384 < ck.key + chunkSizeBytes := by omega
  have index : 2048 + (ck.key + (leaf - 2048) * 16384 - ck.key) / 16384 = leaf := by omega
  refine ⟨ck.key + (leaf - 2048) * 16384, place.backed.mpr ⟨start.1, start.2, ?_⟩⟩
  intro n member holds
  have bound := place.inv.nodes n (List.mem_append_right _ member)
  have below := (nodeRun_holds ⟨by omega, bound.2⟩ start.1 start.2).mp holds
  rw [index] at below
  exact outside n member below

end Kept

section Runs

variable {s : Session} {rule : Env → Session → Call → Session → Prop}

theorem Reach.pruned (reach : Reach rule s) : s.world.Pruned := by
  induction reach with
  | @init env w₀ w brk granted findings below call =>
      rcases wp_ok (@arenaInit_frame w₀ mayEnd env brk below) call with ⟨w₁, frame, rfl⟩
      intro chunk listed
      have member : chunk ∈ w₁.arena.chunkList := listed
      rw [frame.chunkList] at member
      exact absurd member List.not_mem_nil
  | @call s env fuel call result w before legal kept run ih =>
      rcases before.inv.inv with ⟨g, world⟩
      have args := before.inv.legal legal
      exact Call.run_pruned world before.inv.stocked args.1 args.2 result w run ih
  | write before inside ih => exact ih

/-- The allocator keeps no memory for regions that were freed alone: each of its runs has a region
that was not handed out yet or that the program has, each chunk has a mapped byte that was not
given back, and each huge mapping is a region of the program's. -/
theorem kept_useful (reach : Reach anyCalls s) :
    (∀ b, ∀ run ∈ s.world.arena.entries (.run b), ∃ i < classElems b,
      (s.world.runs run).state i = .free ∨
        ∃ region ∈ s.live, region.ptr = (s.world.runs run).key + i * classSize b ∧
          region.len = classSize b) ∧
    (∀ chunk ∈ s.world.arena.chunkList, ∃ x, Backed (s.world.chunks chunk) x ∧ s.world.Mapped x) ∧
    ∀ huge ∈ s.world.arena.hugeAllocList, ∃ region ∈ s.live,
      region.ptr = (s.world.huges huge).key ∧ region.len = (s.world.huges huge).len := by
  rcases reach.inv.inv with ⟨g, world⟩
  refine ⟨?_, ?_, ?_⟩
  · intro b run member
    rcases world.run_useful member with ⟨i, inside, free | alloc⟩
    · exact ⟨i, inside, Or.inl free⟩
    · have located : Located s.world ((s.world.runs run).key + i * classSize b)
          (.regular (s.world.history.runChunk run) b run) (classSize b) :=
        ⟨⟨member, rfl, i, inside, rfl, alloc⟩, rfl⟩
      exact ⟨i, inside, Or.inr (reach.located_live located)⟩
  · intro chunk member
    rcases (world.chunks chunk member).some_backed (reach.pruned chunk member) with ⟨x, backed⟩
    refine ⟨x, backed, ?_⟩
    rcases world.owned_iff.mp (Or.inr (Or.inl ⟨chunk, member, backed⟩)) with ⟨o, owns⟩
    exact world.owned o x owns
  · intro huge member
    have located : Located s.world (s.world.huges huge).key (.huge huge)
        (s.world.huges huge).len := ⟨member, rfl, rfl⟩
    exact reach.located_live located

/-- A region of a run, and a huge one that was freed. -/
theorem kept_useful_two : ∃ s, Reach anyCalls s ∧ s.live.length = 1 ∧ s.dead.length = 1 ∧
    (∀ b, ∀ run ∈ s.world.arena.entries (.run b), ∃ i < classElems b,
      (s.world.runs run).state i = .free ∨
        ∃ region ∈ s.live, region.ptr = (s.world.runs run).key + i * classSize b ∧
          region.len = classSize b) ∧
    (∀ chunk ∈ s.world.arena.chunkList, ∃ x, Backed (s.world.chunks chunk) x ∧ s.world.Mapped x) ∧
    ∀ huge ∈ s.world.arena.hugeAllocList, ∃ region ∈ s.live,
      region.ptr = (s.world.huges huge).key ∧ region.len = (s.world.huges huge).len := by
  have played : (Session.play (.willing fun n => (n + 1) * 2 ^ 44) 3 (2 ^ 45)
      [.malloc (2 ^ 21), .malloc 16, .free (some (2 ^ 46))]).map (fun s =>
        (s.live.length, s.dead.length)) = some (1, 1) := by decide +kernel
  rcases Option.map_eq_some_iff.mp played with ⟨s, run, both⟩
  rw [Prod.mk.injEq] at both
  have reach : Reach anyCalls s := play_reach (fun _ _ _ _ => trivial) (by decide) run
  exact ⟨s, reach, both.1, both.2, kept_useful reach⟩

end Runs

end Sealloc
