import Sealloc.World.Release

/-! Huge mappings: making, moving and unmapping them. -/

namespace Sealloc

open Library Chunk

/-- Nothing but the huge mappings, user memory and what is mapped differs. -/
structure HugeChange (w w' : World) : Prop where
  brk : w'.arena.brk = w.arena.brk
  chunks : w'.chunks = w.chunks
  runs : w'.runs = w.runs
  intAllocs : w'.intAllocs = w.intAllocs
  chunkList : w'.arena.chunkList = w.arena.chunkList
  internalAllocList : w'.arena.internalAllocList = w.arena.internalAllocList
  bins : w'.arena.bins = w.arena.bins
  findings : w'.history.findings = w.history.findings
  runChunk : w'.history.runChunk = w.history.runChunk
  granted : w'.history.granted = w.history.granted

section Change

variable {w w' : World} {g : Layout}

theorem HugeChange.entries (change : HugeChange w w') {kind : Kind} (other : kind ≠ .huge) :
    w'.arena.entries kind = w.arena.entries kind := by
  cases kind with
  | chunk => exact change.chunkList
  | huge => exact absurd rfl other
  | run b =>
      unfold Arena.entries
      rw [change.bins]

theorem HugeChange.metaSize (change : HugeChange w w') : w'.arena.metaSize = w.arena.metaSize := by
  funext kind
  cases kind with
  | chunk => rfl
  | huge => rfl
  | run b =>
      unfold Arena.metaSize
      rw [change.bins]

theorem HugeChange.region (change : HugeChange w w') {chunk b run ptr : Nat} {s : BState} :
    Region w' chunk b run ptr s ↔ Region w chunk b run ptr s := by
  unfold Region
  rw [change.entries (by simp), change.runChunk, change.runs]

theorem HugeChange.owns (change : HugeChange w w') {o : Owner} (other : ∀ huge, o ≠ .huge huge)
    (x : Nat) : Owns w' g o x ↔ Owns w g o x := by
  cases o with
  | internal root =>
      unfold Owns
      rw [change.internalAllocList]
  | chunk chunk =>
      unfold Owns
      rw [change.chunkList, change.chunks]
  | huge huge => exact absurd rfl (other huge)

/-- The invariant holds again when the new huge mappings are as they should be. -/
theorem Inv.changeHuge (inv : Inv w g none) (change : HugeChange w w')
    (blocks : ∀ huge ∈ w'.arena.hugeAllocList, (∀ kind, kind ≠ .huge → huge ∉ w.arena.entries kind) ∧
      Placed w.arena.internalAllocList w.intAllocs huge hugeChunkSizeof)
    (nodup : w'.arena.hugeAllocList.Nodup)
    (places : ∀ huge ∈ w'.arena.hugeAllocList, HugePlace (w'.huges huge))
    (apart : ∀ huge o x, Owns w' g (.huge huge) x → Owns w' g o x → o = .huge huge)
    (mapped : ∀ o x, Owns w' g o x → w'.Mapped x) (fewer : ∀ x, w'.Mapped x → w.Mapped x)
    (origin : ∀ ptr o len, Located w' ptr o len → w'.history.origin ptr = some o) :
    Inv w' g none := by
  refine ⟨?_, ⟨?_, ?_, ?_, ?_, ?_, ?_, ?_⟩, ?_, ?_, ?_, ?_, ?_, ?_, ?_, places, ?_, mapped, ?_, ?_,
    origin⟩
  · rw [change.brk]
    exact inv.brk
  · rw [change.internalAllocList]
    exact inv.blocks.distinct
  · rw [change.internalAllocList, change.intAllocs]
    exact inv.blocks.valid
  · rw [change.internalAllocList]
    exact inv.blocks.bounds
  · rw [change.internalAllocList]
    exact inv.blocks.aligned
  · intro kind addr member
    rw [change.internalAllocList, change.intAllocs, change.metaSize]
    by_cases isHuge : kind = .huge
    · rw [isHuge] at member ⊢
      exact (blocks addr member).2
    · rw [change.entries isHuge] at member
      exact inv.blocks.placed kind addr member
  · intro kind kind' addr member member'
    by_cases isHuge : kind = .huge
    · by_cases isHuge' : kind' = .huge
      · rw [isHuge, isHuge']
      · rw [isHuge] at member
        rw [change.entries isHuge'] at member'
        exact absurd member' ((blocks addr member).1 kind' isHuge')
    · by_cases isHuge' : kind' = .huge
      · rw [isHuge'] at member'
        rw [change.entries isHuge] at member
        exact absurd member ((blocks addr member').1 kind isHuge)
      · rw [change.entries isHuge] at member
        rw [change.entries isHuge'] at member'
        exact inv.blocks.single kind kind' addr member member'
  · intro kind
    by_cases isHuge : kind = .huge
    · rw [isHuge]
      exact nodup
    · rw [change.entries isHuge]
      exact inv.blocks.nodup kind
  · rw [change.chunkList, change.chunks]
    exact inv.chunks
  · intro b run member
    rw [change.entries (by simp)] at member
    rw [change.runChunk, change.chunkList]
    exact inv.known b run member
  · intro b run member
    rw [change.entries (by simp)] at member
    rw [change.runChunk, change.chunks, change.runs]
    exact inv.runs b run member
  · intro chunk member n live waiting
    rw [change.chunkList] at member
    rcases inv.cover chunk member n live waiting with ⟨b, run, before, from_, node⟩
    refine ⟨b, run, ?_, ?_, node⟩
    · rw [change.entries (by simp)]
      exact before
    · rw [change.runChunk]
      exact from_
  · intro b b' run run' member member'
    rw [change.entries (by simp)] at member member'
    rw [change.runChunk]
    exact inv.same b b' run run' member member'
  · intro chunk n impossible
    simp at impossible
  · rw [change.bins, change.runs]
    exact inv.bins
  · intro o o' x one two
    by_cases isHuge : ∃ huge, o = .huge huge
    · rcases isHuge with ⟨huge, rfl⟩
      exact (apart huge o' x one two).symm
    · by_cases isHuge' : ∃ huge, o' = .huge huge
      · rcases isHuge' with ⟨huge, rfl⟩
        exact apart huge o x two one
      · have other : ∀ huge, o ≠ .huge huge := fun huge same => isHuge ⟨huge, same⟩
        have other' : ∀ huge, o' ≠ .huge huge := fun huge same => isHuge' ⟨huge, same⟩
        exact inv.owner o o' x ((change.owns other x).mp one) ((change.owns other' x).mp two)
  · intro x now
    rw [change.granted]
    exact inv.granted x (fewer x now)
  · rw [change.findings]
    exact inv.findings

/-- The metadata of a huge mapping is used for nothing else. -/
theorem Inv.huge_block (inv : Inv w g none) {huge : Nat} (member : huge ∈ w.arena.hugeAllocList) :
    (∀ kind, kind ≠ .huge → huge ∉ w.arena.entries kind) ∧
      Placed w.arena.internalAllocList w.intAllocs huge hugeChunkSizeof := by
  refine ⟨?_, inv.blocks.placed .huge huge member⟩
  intro kind other inside
  exact other (inv.blocks.single kind .huge huge inside member)

/-- A world with one more huge mapping. -/
structure HugeAdded (w : World) (huge : Nat) (value : HugeChunk) (w' : World) : Prop where
  change : HugeChange w w'
  list : w'.arena.hugeAllocList = huge :: w.arena.hugeAllocList
  huges : w'.huges = Function.update w.huges huge value
  maps : w'.maps = w.maps
  origin : w'.history.origin = Function.update w.history.origin value.key (some (.huge huge))

theorem HugeAdded.owns {huge : Nat} {value : HugeChunk} (added : HugeAdded w huge value w')
    (unused : huge ∉ w.arena.hugeAllocList) {o : Owner} {x : Nat} (owns : Owns w' g o x) :
    (o = .huge huge ∧ value.key ≤ x ∧ x < value.key + value.len) ∨ Owns w g o x := by
  cases o with
  | internal root => exact Or.inr ((added.change.owns (by simp) x).mp owns)
  | chunk chunk => exact Or.inr ((added.change.owns (by simp) x).mp owns)
  | huge other =>
      rcases owns with ⟨member, low, high⟩
      rw [added.list] at member
      rw [added.huges] at low high
      rcases List.mem_cons.mp member with rfl | before
      · rw [Function.update_self] at low high
        exact Or.inl ⟨rfl, low, high⟩
      · have different : other ≠ huge := fun same => unused (same ▸ before)
        rw [Function.update_of_ne different] at low high
        exact Or.inr ⟨before, low, high⟩

theorem HugeAdded.located {huge : Nat} {value : HugeChunk} (added : HugeAdded w huge value w')
    (unused : huge ∉ w.arena.hugeAllocList) {p n : Nat} {o : Origin} :
    Located w' p o n ↔ (o = .huge huge ∧ value.key = p ∧ n = value.len) ∨ Located w p o n := by
  cases o with
  | regular chunk b run =>
      rw [located_regular, located_regular, added.change.region]
      simp
  | huge other =>
      rw [located_huge, located_huge, added.list, added.huges]
      by_cases same : other = huge
      · rw [same, Function.update_self]
        simp [unused]
      · rw [Function.update_of_ne same]
        simp [same]

/-- A huge mapping on a range that nobody owns. -/
theorem Inv.addHuge {huge : Nat} {value : HugeChunk} (inv : Inv w g none)
    (added : HugeAdded w huge value w') (unused : ∀ kind, huge ∉ w.arena.entries kind)
    (placed : Placed w.arena.internalAllocList w.intAllocs huge hugeChunkSizeof)
    (place : HugePlace value)
    (mapped : ∀ x, value.key ≤ x → x < value.key + value.len → w.Mapped x)
    (unowned : ∀ o x, value.key ≤ x → x < value.key + value.len → ¬ Owns w g o x) :
    Inv w' g none := by
  have owns : ∀ o x, Owns w' g o x → (o = .huge huge ∧ value.key ≤ x ∧
      x < value.key + value.len) ∨ Owns w g o x := fun _ _ => added.owns (unused .huge)
  have still : ∀ x, w'.Mapped x ↔ w.Mapped x := by
    intro x
    unfold World.Mapped
    rw [added.maps]
  apply inv.changeHuge added.change
  · intro other member
    rw [added.list] at member
    rcases List.mem_cons.mp member with rfl | before
    · exact ⟨fun kind _ => unused kind, placed⟩
    · exact inv.huge_block before
  · rw [added.list]
    exact List.nodup_cons.mpr ⟨unused .huge, inv.blocks.nodup .huge⟩
  · intro other member
    rw [added.list] at member
    rw [added.huges]
    rcases List.mem_cons.mp member with rfl | before
    · rw [Function.update_self]
      exact place
    · have different : other ≠ huge := fun same => unused .huge (same ▸ before)
      rw [Function.update_of_ne different]
      exact inv.huges other before
  · intro other o x one two
    rcases owns _ x one with ⟨same, low, high⟩ | before
    · rcases owns o x two with ⟨same', -⟩ | before'
      · rw [same, same']
      · exact absurd before' (unowned o x low high)
    · rcases owns o x two with ⟨-, low, high⟩ | before'
      · exact absurd before (unowned _ x low high)
      · exact (inv.owner _ _ x before before').symm
  · intro o x one
    rw [still]
    rcases owns o x one with ⟨-, low, high⟩ | before
    · exact mapped x low high
    · exact inv.owned o x before
  · exact fun x => (still x).mp
  · intro p o n located
    rw [added.origin]
    rcases (added.located (unused .huge)).mp located with ⟨rfl, rfl, -⟩ | before
    · exact Function.update_self _ _ _
    · have positive := inv.located_pos before
      have large := place.large
      have different : p ≠ value.key := by
        intro same
        have owner := inv.located_owner before (Nat.le_refl p) (by omega)
        exact unowned _ p (by omega) (by omega) owner
      rw [Function.update_of_ne different]
      exact inv.origin p o n before

theorem HugeAdded.grows {huge : Nat} {value : HugeChunk} (added : HugeAdded w huge value w')
    (unused : huge ∉ w.arena.hugeAllocList) (memory : ∀ x, UserByte w x → w'.memory x = w.memory x)
    (copies : w'.history.copies = w.history.copies) (calls : w.mmapCalls ≤ w'.mmapCalls) :
    Grows w w' where
  keeps := by
    apply Keeps.of_regions _ _ _ memory
    · refine ⟨[], added.change.granted, ?_⟩
      intro x
      unfold World.Mapped
      rw [added.maps]
      simp
    · exact fun _ _ _ _ _ _ region => added.change.region.mpr region
    · intro other member
      rw [added.list, added.huges]
      have different : other ≠ huge := fun same => unused (same ▸ member)
      exact ⟨List.mem_cons_of_mem huge member, Function.update_of_ne different _ _⟩
  copies := copies
  calls := calls

end Change

/-- A huge mapping of `len` bytes that was not allocated before. -/
structure HugeMade (w : World) (huge len : Nat) (w' : World) : Prop where
  inv : ∃ g, Inv w' g none
  grows : Grows w w'
  located : Located w' (w'.huges huge).key (.huge huge) len
  new : ∀ o n, ¬ Located w (w'.huges huge).key o n
  bins : w'.arena.bins = w.arena.bins

section Specs

variable {ends : Ends World} {w : World} {g : Layout} {env : Env}

/-- `skipMapping` at most moves its probe pointer. -/
theorem skipMapping_probe (which : ProbePtr) (map step : Nat) :
    wp ends (skipMapping which map step)
      (fun _ w' => ∃ addr, w' = w.setArena (w.arena.setProbe which addr)) w := by
  unfold skipMapping
  simp only [wp_bind, wp_get]
  by_cases stands : map = w.arena.probe which
  · rw [if_pos stands]
    exact ⟨_, rfl⟩
  · rw [if_neg stands]
    refine ⟨w.arena.probe which, ?_⟩
    cases which <;> rfl

/-- Nothing that is allocated starts on bytes that nobody owns. -/
theorem Inv.not_located (inv : Inv w g none) {ptr : Nat} (unowned : ∀ o, ¬ Owns w g o ptr)
    (o : Origin) (n : Nat) : ¬ Located w ptr o n := by
  intro located
  have positive := inv.located_pos located
  exact unowned _ (inv.located_owner located (Nat.le_refl ptr) (by omega))

theorem arenaAllocateHugeMapping_wp {fuel len : Nat} (inv : Inv w g none)
    (large : len = 0 ∨ largeSizeMaxRegion < len) (pages : len % pageSize = 0) (loops : ends.fuel) :
    wp ends (arenaAllocateHugeMapping env fuel len) (fun huge w' => HugeMade w huge len w' ∧
      0 < len ∧ ¬ env.Fails w.mmapCalls) w := by
  unfold arenaAllocateHugeMapping
  rw [wp_bind]
  apply wp_mono (arenaInternalAlloc_wp hugeChunkSizeof inv.rootsOk inv.brk (by decide)
    (by decide) fun _ => loops)
  intro r w₁ post
  rcases post with ⟨huge, rfl, taken, -, -⟩
  have inv₁ := inv.metaFrame taken.frame fun _ _ _ => id
  simp only
  rw [wp_bind]
  apply wp_mono (arenaMorecore_wp loops (resetPtrStart_resets env .hugeAlloc) fuel len
    (fun _ => maxUserspaceAddr64) inv₁.brk)
  intro map w₂ got
  rcases got with ⟨mapped, fresh, working⟩
  have inv₂ := inv₁.metaFrame mapped.metaFrame fun _ _ _ => id
  have entries := (taken.frame.trans mapped.metaFrame).entries
  have unused : ∀ kind, huge ∉ w₂.arena.entries kind := by
    rw [entries.1]
    exact inv.blocks.unused taken.fresh
  have placed : Placed w₂.arena.internalAllocList w₂.intAllocs huge hugeChunkSizeof := by
    rw [mapped.internalAllocList, mapped.intAllocs]
    exact taken.placed
  have unowned : ∀ o x, map ≤ x → x < map + len → ¬ Owns w₂ g o x :=
    fun o x low high => inv₁.unowned mapped fresh o x ⟨low, high⟩
  have positive : 0 < len := fresh.len
  have place : HugePlace ⟨map, len⟩ :=
    ⟨fresh.aligned, fresh.start, large.resolve_left (by omega), pages, fresh.low⟩
  have before := (taken.frame.grows inv).trans (mapped.metaFrame.grows inv₁)
  simp only [wp_bind, wp_modify]
  apply wp_mono (skipMapping_probe .hugeAlloc map (u64 (len + pageSize)))
  intro _ w₃ skipped
  rcases skipped with ⟨addr, rfl⟩
  simp only [setOrigin, wp_modify, wp_pure]
  generalize made : World.record _ _ = w₄
  have added : HugeAdded w₂ huge ⟨map, len⟩ w₄ := by
    rw [← made]
    refine ⟨⟨rfl, rfl, rfl, rfl, rfl, rfl, rfl, rfl, rfl, rfl⟩, rfl, rfl, rfl, rfl⟩
  have inv₄ := inv₂.addHuge added unused placed place
    (fun x low high => fresh.after x ⟨low, high⟩) unowned
  have grows : Grows w₂ w₄ := by
    apply added.grows (unused .huge)
    · rw [← made]
      intro x user
      exact scribble_other (inv₂.user_apart user placed)
    · rw [← made]
      rfl
    · rw [← made]
      exact Nat.le_refl _
  have key : (w₄.huges huge).key = map := by
    rw [added.huges, Function.update_self]
  refine ⟨⟨⟨g, inv₄⟩, before.trans grows, ?_, ?_, ?_⟩, positive, ?_⟩
  · rw [key]
    exact (added.located (unused .huge)).mpr (Or.inl ⟨rfl, rfl, rfl⟩)
  · rw [key]
    intro o n located
    apply inv₂.not_located (fun o => unowned o map (Nat.le_refl map) (by omega)) o n
    exact before.keeps.located map o n id located
  · rw [added.change.bins, mapped.bins, taken.frame.bins]
  · exact fun fails => working (fails.mono taken.frame.calls)

/-- The world in which a huge mapping is unmapped and off the list. -/
def World.withoutHuge (w : World) (huge : Nat) : World :=
  (w.countMunmap.removeMap ⟨(w.huges huge).key, (w.huges huge).len⟩).setArena
    { w.arena with hugeAllocList := w.arena.hugeAllocList.erase huge }

theorem withoutHuge_mapped (w : World) (huge x : Nat) : (w.withoutHuge huge).Mapped x ↔
    w.Mapped x ∧ ¬ ((w.huges huge).key ≤ x ∧ x < (w.huges huge).key + (w.huges huge).len) :=
  mapped_removeMap w.countMunmap _ x

/-- A huge mapping is unmapped. -/
theorem Inv.dropHuge {huge : Nat} (inv : Inv w g none) (member : huge ∈ w.arena.hugeAllocList) :
    Inv (w.withoutHuge huge) g none ∧
      Released w (w.huges huge).key (w.huges huge).len (w.withoutHuge huge) := by
  have change : HugeChange w (w.withoutHuge huge) :=
    ⟨rfl, rfl, rfl, rfl, rfl, rfl, rfl, rfl, rfl, rfl⟩
  have still : ∀ other, other ∈ (w.withoutHuge huge).arena.hugeAllocList ↔
      other ≠ huge ∧ other ∈ w.arena.hugeAllocList :=
    fun other => (inv.blocks.nodup .huge).mem_erase_iff
  have owns : ∀ o x, Owns (w.withoutHuge huge) g o x → Owns w g o x ∧ o ≠ .huge huge := by
    intro o x owns
    cases o with
    | internal root => exact ⟨owns, by simp⟩
    | chunk chunk => exact ⟨owns, by simp⟩
    | huge other =>
        rcases owns with ⟨inside, low, high⟩
        have before := (still other).mp inside
        refine ⟨⟨before.2, low, high⟩, ?_⟩
        rw [ne_eq, Owner.huge.injEq]
        exact before.1
  have located : ∀ {p o n}, Located (w.withoutHuge huge) p o n ↔
      Located w p o n ∧ o ≠ .huge huge := by
    intro p o n
    cases o with
    | regular chunk b run =>
        rw [located_regular, located_regular, change.region]
        simp
    | huge other =>
        have names : Origin.huge other ≠ Origin.huge huge ↔ other ≠ huge := by simp
        rw [located_huge, located_huge, still, names]
        constructor
        · intro found
          exact ⟨⟨found.1.2, found.2⟩, found.1.1⟩
        · intro found
          exact ⟨⟨found.2, found.1.1⟩, found.1.2⟩
  have here : Located w (w.huges huge).key (.huge huge) (w.huges huge).len :=
    ⟨member, rfl, rfl⟩
  have after : Inv (w.withoutHuge huge) g none := by
    apply inv.changeHuge change
    · intro other inside
      exact inv.huge_block ((still other).mp inside).2
    · exact (inv.blocks.nodup .huge).erase huge
    · intro other inside
      exact inv.huges other ((still other).mp inside).2
    · intro other o x one two
      exact (inv.owner _ _ x (owns _ x one).1 (owns o x two).1).symm
    · intro o x one
      have before := owns o x one
      apply (withoutHuge_mapped w huge x).mpr
      refine ⟨inv.owned o x before.1, ?_⟩
      intro inside
      exact before.2 (inv.owner o (.huge huge) x before.1 ⟨member, inside⟩)
    · exact fun x mapped => ((withoutHuge_mapped w huge x).mp mapped).1
    · intro p o n found
      exact inv.origin p o n (located.mp found).1
  refine ⟨after, ⟨g, after⟩, ⟨?_, fun _ _ _ _ _ _ _ _ => rfl, ⟨[], rfl, ?_⟩⟩, ?_, ?_, rfl, rfl,
    id⟩
  · intro p o n stays found
    refine located.mpr ⟨found, ?_⟩
    intro same
    rw [same] at found
    exact stays found.2.1.symm
  · intro p x spent
    left
    rcases spent with ⟨chunk, b, run, region, inside⟩ | gone
    · exact Or.inl ⟨chunk, b, run, change.region.mpr region, inside⟩
    · exact Or.inr fun mapped => gone ((withoutHuge_mapped w huge x).mp mapped).1
  · intro o n found
    have before := located.mp found
    exact before.2 (inv.located_unique before.1 here).1
  · intro x low high
    exact Or.inr fun mapped => ((withoutHuge_mapped w huge x).mp mapped).2 ⟨low, high⟩

theorem HugePlace.unmapping {huge : HugeChunk} (place : HugePlace huge) : 0 < huge.len := by
  have large := place.large
  omega

theorem arenaDeallocateHugeMapping_wp {huge : Nat}
    (exits : Exits env ends) (inv : Inv w g none)
    (member : huge ∈ w.arena.hugeAllocList) :
    wp ends (arenaDeallocateHugeMapping env huge) (fun _ w' =>
      Released w (w.huges huge).key (w.huges huge).len w') w := by
  have place := inv.huges huge member
  have placed := inv.blocks.placed .huge huge member
  rcases inv.dropHuge member with ⟨after, released⟩
  have unused : ∀ kind, huge ∉ (w.withoutHuge huge).arena.entries kind := by
    intro kind inside
    cases kind with
    | huge => exact (inv.blocks.nodup .huge).not_mem_erase inside
    | chunk => exact (inv.huge_block member).1 .chunk (by simp) inside
    | run b => exact (inv.huge_block member).1 (.run b) (by simp) inside
  unfold arenaDeallocateHugeMapping
  simp only [wp_bind, wp_get]
  apply platformUnmap_wp exits inv.findings place.aligned place.unmapping
  rw [wp_modify]
  have world : (w.countMunmap.removeMap ⟨(w.huges huge).key, (w.huges huge).len⟩).setArena
      { (w.countMunmap.removeMap ⟨(w.huges huge).key, (w.huges huge).len⟩).arena with
        hugeAllocList := (w.countMunmap.removeMap
          ⟨(w.huges huge).key, (w.huges huge).len⟩).arena.hugeAllocList.erase huge } =
      w.withoutHuge huge := rfl
  rw [world]
  apply wp_mono (@arenaInternalFree_wp _ _ hugeChunkSizeof after.rootsOk _ placed)
  intro _ w₂ post
  exact (released.freeMeta after post.1 post.2 unused).1

end Specs

end Sealloc
