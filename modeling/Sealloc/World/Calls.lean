import Sealloc.World.Locate

/-! The calls of the allocator as steps of the world. -/

namespace Sealloc

open Library Chunk

/-- A region of at least `size` bytes at `ptr` that was not allocated before. -/
structure Malloced (w : World) (size ptr : Nat) (w' : World) : Prop where
  inv : ∃ g, Inv w' g none
  grows : Grows w w'
  located : ∃ o len, Located w' ptr o len ∧ size ≤ len
  new : ∀ o n, ¬ Located w ptr o n
  stocked : Stocked w'

/-- A size that is not huge is served from what is mapped. -/
def World.Fits (w : World) (size : Nat) : Prop :=
  ¬ isSizeHuge size ∧ w.RunsFit (binIndex (alignupSize size))
    (runsNeeded (binIndex (alignupSize size)) (w.arena.bins (binIndex (alignupSize size))).availRegs)

instance (w : World) (size : Nat) : Decidable (w.Fits size) := inferInstanceAs (Decidable (_ ∧ _))

/-- What `sealloc_malloc` makes of a request for no bytes. -/
def requestSize (size : Nat) : Nat := if size = 0 then smallSizeMinRegion else size

section Malloc

variable {ends : Ends World} {w : World} {g : Layout} {env : Env}

theorem requestSize_spec (size : Nat) : 1 ≤ requestSize size ∧ size ≤ requestSize size := by
  unfold requestSize smallSizeMinRegion
  split <;> omega

/-- The bin of a size that is not huge has regions that are large enough. -/
theorem binIndex_alignup {size : Nat} (positive : 1 ≤ size) (small : ¬ isSizeHuge size) :
    binIndex (alignupSize size) < 43 ∧
      alignupSize size = classSize (binIndex (alignupSize size)) ∧
      size ≤ classSize (binIndex (alignupSize size)) := by
  rcases alignupSize_class positive (Nat.le_of_not_lt small) with ⟨b, isClass, size', enough⟩
  rw [size', binIndex_classSize b isClass]
  exact ⟨isClass, rfl, enough⟩

/-- The length that is mapped for a huge size: it wraps to zero in the last page of sizes. -/
theorem alignupPage_huge {size : Nat} (huge : isSizeHuge size) (word : size < 2 ^ 64) :
    (alignupPage size = 0 ∧ sizeMax - 4095 < size) ∨
      (largeSizeMaxRegion < alignupPage size ∧ size ≤ alignupPage size) := by
  unfold isSizeHuge at huge
  by_cases room : size ≤ sizeMax - 4095
  · have spec := alignupPage_spec room
    right
    omega
  · left
    refine ⟨?_, Nat.lt_of_not_le room⟩
    unfold sizeMax at room
    unfold alignupPage clearLow u64 pageSize
    omega

theorem seallocMalloc_wp {fuel size : Nat} (inv : Inv w g none) (stocked : Stocked w)
    (word : size < 2 ^ 64) (loops : ¬ w.Fits (requestSize size) → ends.fuel) :
    wp ends (seallocMalloc env fuel size) (fun r w' => ∃ ptr, r = some ptr ∧
      Malloced w size ptr w' ∧ (env.Fails w.mmapCalls → w.Fits (requestSize size))) w := by
  have request := requestSize_spec size
  have same : (if size = 0 then smallSizeMinRegion else size) = requestSize size := rfl
  have word' : requestSize size < 2 ^ 64 := by
    unfold requestSize smallSizeMinRegion
    split
    · omega
    · exact word
  unfold seallocMalloc
  simp only [same]
  generalize requestSize size = n at request word' loops ⊢
  by_cases huge : isSizeHuge n
  · have tight : ¬ w.Fits n := fun fits => fits.1 huge
    have large := alignupPage_huge huge word'
    rw [if_pos huge, wp_bind]
    apply wp_mono (arenaAllocateHugeMapping_wp inv (large.imp And.left And.left)
      (alignupPage_aligned n) (loops tight))
    intro addr w' post
    rcases post with ⟨made, positive, working⟩
    rw [wp_bind, wp_get, wp_pure]
    refine ⟨_, rfl, ⟨made.inv, made.grows, ⟨_, _, made.located, ?_⟩, made.new,
      stocked_bins made.bins stocked⟩, fun fails => absurd fails working⟩
    omega
  · rcases binIndex_alignup request.1 huge with ⟨isClass, sized, enough⟩
    rw [if_neg huge, wp_bind]
    apply wp_mono (allocateRegular_wp inv stocked isClass (fun _ => sized) fun tight =>
      loops fun fits => tight fits.2)
    intro ptr w' post
    rcases post with ⟨allocated, working⟩
    rcases allocated.located with ⟨chunk, run, located⟩
    rw [wp_pure]
    refine ⟨ptr, rfl, ⟨allocated.inv, allocated.grows, ⟨_, _, located, ?_⟩, allocated.new,
      allocated.stocked stocked⟩, fun fails => ⟨huge, working fails⟩⟩
    omega

/-- The invariant says nothing about the bytes of user memory. -/
theorem Inv.withMemory (inv : Inv w g none) (memory : Nat → Byte) :
    Inv { w with memory := memory } g none :=
  ⟨inv.brk, inv.blocks, inv.chunks, inv.known, inv.runs, inv.cover, inv.same, inv.waits, inv.bins,
    inv.huges, inv.owner, inv.owned, inv.granted, inv.findings, inv.origin⟩

/-- The bytes of the region that was just allocated are cleared. -/
theorem Malloced.clear {size ptr : Nat} {w₁ : World} (malloced : Malloced w size ptr w₁) :
    Malloced w size ptr { w₁ with memory := scribble w₁.memory ptr size } := by
  rcases malloced.inv with ⟨g', inv₁⟩
  rcases malloced.located with ⟨o, len, located, fits⟩
  refine ⟨⟨g', inv₁.withMemory _⟩, ⟨⟨?_, ?_, ?_⟩, ?_, ?_⟩, ⟨o, len, located, fits⟩,
    malloced.new, malloced.stocked⟩
  · exact malloced.grows.keeps.located
  · intro p origin n x stays found low high
    have before := malloced.grows.keeps.bytes p origin n x stays found low high
    have still := malloced.grows.keeps.located p origin n stays found
    rw [← before]
    apply scribble_other
    intro inside
    have same := inv₁.located_same still located low high inside.1 (by omega)
    rw [same.1] at found
    exact malloced.new origin n found
  · exact malloced.grows.keeps.spent
  · exact malloced.grows.copies
  · exact malloced.grows.calls

/-- `sealloc_calloc` of a product that is computed modulo the words. -/
theorem seallocCalloc_wp {fuel nmemb size : Nat} (inv : Inv w g none) (stocked : Stocked w)
    (loops : ¬ w.Fits (requestSize (u64 (nmemb * size))) → ends.fuel) :
    wp ends (seallocCalloc env fuel nmemb size) (fun r w' =>
      (nmemb = 0 ∨ size = 0) ∧ r = none ∧ w' = w ∨
      ¬ (nmemb = 0 ∨ size = 0) ∧ ∃ ptr, r = some ptr ∧
        Malloced w (u64 (nmemb * size)) ptr w' ∧
        ∀ x, ptr ≤ x → x < ptr + u64 (nmemb * size) → w'.memory x = 0#8) w := by
  unfold seallocCalloc
  by_cases nothing : nmemb = 0 ∨ size = 0
  · rw [if_pos nothing, wp_pure]
    exact Or.inl ⟨nothing, rfl, rfl⟩
  · rw [if_neg nothing, wp_bind]
    have word : u64 (nmemb * size) < 2 ^ 64 := Nat.mod_lt _ (by decide)
    apply wp_mono (seallocMalloc_wp inv stocked word loops)
    intro r w₁ post
    rcases post with ⟨ptr, rfl, malloced, -⟩
    simp only [wp_bind, memset0, wp_modify, wp_pure]
    refine Or.inr ⟨nothing, ptr, rfl, malloced.clear, ?_⟩
    intro x low high
    exact if_pos ⟨low, high⟩

/-- `sealloc_free` of an allocated region. -/
theorem seallocFree_wp {ptr len : Nat} {o : Origin}
    (exits : Exits env ends) (inv : Inv w g none)
    (located : Located w ptr o len) :
    wp ends (seallocFree env (some ptr)) (fun _ w' => Released w ptr len w') w := by
  unfold seallocFree
  rw [wp_bind]
  apply wp_of_ok (inv.locate located)
  cases o with
  | regular chunk b run =>
      rcases located with ⟨region, rfl⟩
      exact seallocFreeWithMetadata_wp exits inv region
  | huge huge =>
      rcases located with ⟨member, rfl, rfl⟩
      exact arenaDeallocateHugeMapping_wp exits inv member

end Malloc

/-- The bytes that `sealloc_realloc` asks for: a huge mapping is asked for whole pages. -/
def Origin.request : Origin → Nat → Nat
  | .regular _ _ _, newSize => newSize
  | .huge _, newSize => alignupPage newSize

/-- The size that is then allocated. -/
def Origin.allocates : Origin → Nat → Nat
  | .regular _ _ _, newSize => newSize
  | .huge _, newSize => requestSize (alignupPage newSize)

section Realloc

variable {ends : Ends World} {w : World} {g : Layout} {env : Env} {ptr len : Nat}

/-- A huge mapping that becomes a region of a run. -/
theorem reallocHuge_wp {fuel huge size : Nat}
    (exits : Exits env ends) (inv : Inv w g none)
    (stocked : Stocked w) (member : huge ∈ w.arena.hugeAllocList) (word : size < 2 ^ 64)
    (pages : size % pageSize = 0) (loops : ¬ w.Fits (requestSize size) → ends.fuel) :
    wp ends (reallocHuge env fuel huge size) (fun r w' => ∃ q newLen, r = some q ∧
      Replaced w (w.huges huge).key (w.huges huge).len q newLen size w' ∧ size ≤ newLen ∧
      (env.Fails w.mmapCalls → w.Fits (requestSize size))) w := by
  have place := inv.huges huge member
  have old : Located w (w.huges huge).key (.huge huge) (w.huges huge).len := ⟨member, rfl, rfl⟩
  unfold reallocHuge
  by_cases isHuge : isSizeHuge size
  · have positive : size ≠ 0 := by
      unfold isSizeHuge at isHuge
      omega
    have same : requestSize size = size := if_neg positive
    rw [same] at loops ⊢
    have tight : ¬ w.Fits size := fun fits => fits.1 isHuge
    rw [if_pos isHuge, wp_bind]
    apply wp_mono (arenaReallocateHugeMapping_wp exits inv member isHuge pages (loops tight))
    intro _ w' post
    rcases post with ⟨replaced, working⟩
    rw [wp_bind, wp_get, wp_pure]
    exact ⟨_, _, rfl, replaced, Nat.le_refl _, fun fails => absurd fails working⟩
  · rw [if_neg isHuge, wp_bind]
    apply wp_mono (seallocMalloc_wp inv stocked word loops)
    intro r w₁ post
    rcases post with ⟨q, rfl, malloced, working⟩
    rcases malloced.inv with ⟨g₁, inv₁⟩
    rcases malloced.located with ⟨o, newLen, located, enough⟩
    have still := malloced.grows.keeps.located _ _ _ id old
    have key : (w₁.huges huge).key = (w.huges huge).key := still.2.1
    have length : (w₁.huges huge).len = (w.huges huge).len := still.2.2.symm
    have large := place.large
    unfold isSizeHuge at isHuge
    simp only [wp_bind, wp_get, memcpy, wp_modify]
    rw [key]
    have after := inv₁.copyBytes ⟨q, (w.huges huge).key, size⟩
    apply wp_mono (@arenaDeallocateHugeMapping_wp ends _ _ env huge exits after still.1)
    intro _ w' released
    have key' : ((w₁.copyBytes ⟨q, (w.huges huge).key, size⟩).huges huge).key =
        (w.huges huge).key := key
    have length' : ((w₁.copyBytes ⟨q, (w.huges huge).key, size⟩).huges huge).len =
        (w.huges huge).len := length
    rw [key', length'] at released
    rw [wp_pure]
    refine ⟨q, newLen, rfl, ?_, enough, working⟩
    exact released.replaced inv₁ old malloced.grows located malloced.new (by omega) enough
      (Nat.min_le_right _ _) fun _ => malloced.stocked

/-- A region of a run that gets another size. -/
theorem reallocRegular_wp {fuel chunk b run newSize : Nat}
    (exits : Exits env ends) (inv : Inv w g none)
    (stocked : Stocked w) (located : Located w ptr (.regular chunk b run) len)
    (word : newSize < 2 ^ 64) (sane : newSize = 0 → w.arena.bins 36 ≠ Bin.zero)
    (loops : ¬ w.Fits newSize → ends.fuel) :
    wp ends (reallocRegular env fuel chunk b run ptr newSize) (fun r w' => ∃ q newLen, r = some q ∧
      Replaced w ptr len q newLen newSize w' ∧ newSize ≤ newLen ∧
      (env.Fails w.mmapCalls → w.Fits newSize)) w := by
  have length : len = classSize b := located.2
  have ready := inv.ready located.1.1
  have facts := classSize_facts b ready.isClass
  unfold reallocRegular
  simp only [wp_bind, wp_get]
  rw [ready.regSize, ← length]
  by_cases isHuge : isSizeHuge newSize
  · have tight : ¬ w.Fits newSize := fun fits => fits.1 isHuge
    have large := alignupPage_huge isHuge word
    simp only [if_pos isHuge, wp_bind]
    apply wp_mono (arenaAllocateHugeMapping_wp inv (large.imp And.left And.left)
      (alignupPage_aligned newSize) (loops tight))
    intro huge w₁ post
    rcases post with ⟨made, positive, working⟩
    rcases made.inv with ⟨g₁, inv₁⟩
    have still := made.grows.keeps.located ptr _ len id located
    have after := inv₁.copyBytes ⟨(w₁.huges huge).key, ptr, len⟩
    simp only [wp_get, memcpy, wp_modify]
    apply wp_mono (seallocFreeWithMetadata_wp exits after still.1)
    intro _ w' released
    rw [← length] at released
    simp only [wp_pure]
    have different : (w₁.huges huge).key ≠ ptr := by
      intro same
      exact made.new _ _ (same ▸ located)
    have found := released.keeps.located (w₁.huges huge).key (.huge huge) (alignupPage newSize)
      different made.located
    rw [found.2.1]
    unfold isSizeHuge at isHuge
    have fits : len ≤ alignupPage newSize ∧ newSize ≤ alignupPage newSize := by omega
    refine ⟨_, alignupPage newSize, rfl, ?_, fits.2, fun fails => absurd fails working⟩
    exact released.replaced inv₁ located made.grows made.located made.new (Nat.le_refl len)
      fits.1 (Nat.min_le_left _ _) (stocked_bins made.bins)
  · have isClass : binIndex (alignupSize newSize) < 43 ∧
        newSize ≤ classSize (binIndex (alignupSize newSize)) ∧
        (w.arena.bins (binIndex (alignupSize newSize)) = Bin.zero →
          alignupSize newSize = classSize (binIndex (alignupSize newSize))) := by
      by_cases nothing : newSize = 0
      · rw [nothing, alignupSize_zero.2]
        exact ⟨by decide, Nat.zero_le _, fun zero => absurd zero (sane nothing)⟩
      · rcases binIndex_alignup (Nat.pos_of_ne_zero nothing) isHuge with ⟨isClass, sized, enough⟩
        exact ⟨isClass, enough, fun _ => sized⟩
    simp only [if_neg isHuge, wp_bind]
    apply wp_mono (allocateRegular_wp inv stocked isClass.1 isClass.2.2 fun tight =>
      loops fun fits => tight fits.2)
    intro q w₁ post
    rcases post with ⟨allocated, working⟩
    rcases allocated.inv with ⟨g₁, inv₁⟩
    rcases allocated.located with ⟨chunk', run', found⟩
    have ready₁ := inv₁.ready found.1.1
    have still := allocated.grows.keeps.located ptr _ len id located
    simp only [wp_get, memcpy, wp_modify]
    rw [ready₁.regSize]
    generalize count : (if classSize (binIndex (alignupSize newSize)) > len then len
      else classSize (binIndex (alignupSize newSize))) = n
    have bound : n ≤ len ∧ n ≤ classSize (binIndex (alignupSize newSize)) ∧
        min len newSize ≤ n := by
      have enough := isClass.2.1
      rw [← count]
      split
      · omega
      · omega
    have after := inv₁.copyBytes ⟨q, ptr, n⟩
    apply wp_mono (seallocFreeWithMetadata_wp exits after still.1)
    intro _ w' released
    rw [← length] at released
    rw [wp_pure]
    refine ⟨q, _, rfl, ?_, isClass.2.1, fun fails => ⟨isHuge, working fails⟩⟩
    exact released.replaced inv₁ located allocated.grows found allocated.new bound.1 bound.2.1
      bound.2.2 allocated.stocked

/-- `sealloc_realloc` of an allocated region. -/
theorem seallocRealloc_wp {fuel newSize : Nat} {o : Origin}
    (exits : Exits env ends) (inv : Inv w g none)
    (stocked : Stocked w) (located : Located w ptr o len) (word : newSize < 2 ^ 64)
    (sane : newSize = 0 → (∃ huge, o = .huge huge) ∨ w.arena.bins 36 ≠ Bin.zero)
    (loops : ¬ w.Fits (o.allocates newSize) → ends.fuel) :
    wp ends (seallocRealloc env fuel (some ptr) newSize) (fun r w' => ∃ q newLen, r = some q ∧
      Replaced w ptr len q newLen (o.request newSize) w' ∧ o.request newSize ≤ newLen ∧
      (env.Fails w.mmapCalls → w.Fits (o.allocates newSize))) w := by
  unfold seallocRealloc
  rw [wp_bind]
  apply wp_of_ok (inv.locate located)
  cases o with
  | huge huge =>
      have word' := alignupPage_lt newSize
      have pages := alignupPage_aligned newSize
      simp only [Origin.metadata, Origin.request, Origin.allocates] at loops ⊢
      generalize alignupPage newSize = size at word' pages loops ⊢
      rcases located with ⟨member, rfl, rfl⟩
      exact reallocHuge_wp exits inv stocked member word' pages loops
  | regular chunk b run =>
      have nonzero := inv.region_regSize located.1
      have valid := (inv.validate_region located.1).mpr rfl
      simp only [Origin.metadata, Origin.request, Origin.allocates, wp_bind, wp_get, if_neg nonzero,
        if_neg valid] at loops ⊢
      apply reallocRegular_wp exits inv stocked located word _ loops
      intro nothing
      rcases sane nothing with ⟨huge, impossible⟩ | used
      · simp at impossible
      · exact used

end Realloc

end Sealloc
