import Sealloc.World.Huge

/-! Replacing a region: the new one gets the bytes of the old one, which is freed. -/

namespace Sealloc

open Library Chunk

/-- The region of `len` bytes at `ptr` is replaced by one of `newLen` bytes at `q`, of which at
least `request` bytes, or as many as there were, are those of the old one. -/
structure Replaced (w : World) (ptr len q newLen request : Nat) (w' : World) : Prop where
  inv : ∃ g, Inv w' g none
  keeps : Keeps (fun p => p = ptr) w w'
  gone : ∀ o n, ¬ Located w' ptr o n
  spent : ∀ x, ptr ≤ x → x < ptr + len → Spent w' ptr x
  located : ∃ o, Located w' q o newLen
  new : ∀ o n, ¬ Located w q o n
  copied : ∃ n, min len request ≤ n ∧ n ≤ len ∧ n ≤ newLen ∧
    w'.history.copies = ⟨q, ptr, n⟩ :: w.history.copies ∧
    ∀ i < n, w'.memory (q + i) = w.memory (ptr + i)
  stocked : Stocked w → Stocked w'

section Copy

variable {w w₁ w' : World} {g : Layout} {ptr len q newLen : Nat}

/-- The invariant says nothing about the bytes of user memory. -/
theorem Inv.copyBytes (inv : Inv w g none) (copy : Copy) : Inv (w.copyBytes copy) g none :=
  ⟨inv.brk, inv.blocks, inv.chunks, inv.known, inv.runs, inv.cover, inv.same, inv.waits, inv.bins,
    inv.huges, inv.owner, inv.owned, inv.granted, inv.findings, inv.origin⟩

/-- A copy into a region changes the bytes of that region only. -/
theorem Inv.copy_keeps {o : Origin} {copy : Copy} (inv : Inv w g none)
    (located : Located w copy.dst o newLen) (fits : copy.len ≤ newLen) :
    Keeps (fun p => p = copy.dst) w (w.copyBytes copy) where
  located := fun _ _ _ _ found => found
  bytes := by
    intro p o' n x stays found low high
    apply if_neg
    intro inside
    exact stays (inv.located_same found located low high inside.1 (by omega)).1
  spent := ⟨[], rfl, fun _ _ spent => Or.inl spent⟩

theorem Keeps.lost {lost lost' : Nat → Prop} (keeps : Keeps lost w w')
    (fewer : ∀ p o n, Located w p o n → lost p → lost' p) : Keeps lost' w w' where
  located := fun p o n stays found =>
    keeps.located p o n (fun is => stays (fewer p o n found is)) found
  bytes := fun p o n x stays found =>
    keeps.bytes p o n x (fun is => stays (fewer p o n found is)) found
  spent := keeps.spent

/-- A region is allocated, the bytes are copied, and the old region is freed. -/
theorem Released.replaced {o o' : Origin} {n request : Nat} (inv₁ : Inv w₁ g none)
    (old : Located w ptr o len) (grows : Grows w w₁) (found : Located w₁ q o' newLen)
    (new : ∀ o n, ¬ Located w q o n) (short : n ≤ len) (fits : n ≤ newLen)
    (enough : min len request ≤ n) (stocked : Stocked w → Stocked w₁)
    (released : Released (w₁.copyBytes ⟨q, ptr, n⟩) ptr len w') :
    Replaced w ptr len q newLen request w' := by
  have copy := @Inv.copy_keeps w₁ g newLen o' ⟨q, ptr, n⟩ inv₁ found fits
  have different : q ≠ ptr := fun same => new o len (same ▸ old)
  have old₁ := grows.keeps.located ptr o len id old
  have after : Located w' q o' newLen := released.keeps.located q o' newLen different found
  refine ⟨released.inv, ?_, released.gone, released.spent, ⟨o', after⟩, new,
    ⟨n, enough, short, fits, ?_, ?_⟩, ?_⟩
  · apply ((grows.keeps.trans copy).trans released.keeps).lost
    intro p origin m located is
    rcases is with (impossible | isNew) | isOld
    · exact impossible.elim
    · rw [isNew] at located
      exact absurd located (new origin m)
    · exact isOld
  · rw [released.copies, ← grows.copies]
    rfl
  · intro i inside
    have last := released.keeps.bytes q o' newLen (q + i) different found (Nat.le_add_right q i)
      (by omega)
    have first := grows.keeps.bytes ptr o len (ptr + i) id old (Nat.le_add_right ptr i) (by omega)
    have middle : (w₁.copyBytes ⟨q, ptr, n⟩).memory (q + i) = w₁.memory (ptr + i) := by
      have inDst : q ≤ q + i ∧ q + i < q + n := ⟨Nat.le_add_right q i, by omega⟩
      unfold World.copyBytes
      simp only [if_pos inDst, Nat.add_sub_cancel_left]
    exact (last.trans middle).trans first
  · exact fun before => released.stocked (stocked before)

end Copy

/-- The world in which the bytes of a huge mapping are copied to a new one, which replaces it. -/
def World.movedHuge (w : World) (huge n : Nat) (value : HugeChunk) : World :=
  let copied := w.copyBytes ⟨value.key, (w.huges huge).key, n⟩
  let moved := (copied.countMunmap.removeMap
    ⟨(w.huges huge).key, (w.huges huge).len⟩).setHuge huge value
  moved.record { moved.history with
    origin := Function.update moved.history.origin value.key (some (.huge huge)) }

section Move

variable {w : World} {g : Layout} {huge n : Nat} {value : HugeChunk}

theorem movedHuge_change : HugeChange w (w.movedHuge huge n value) := by
  cases w
  exact ⟨rfl, rfl, rfl, rfl, rfl, rfl, rfl, rfl, rfl, rfl⟩

theorem movedHuge_arena : (w.movedHuge huge n value).arena = w.arena := by
  cases w
  rfl

theorem movedHuge_copies : (w.movedHuge huge n value).history.copies =
    ⟨value.key, (w.huges huge).key, n⟩ :: w.history.copies := by
  cases w
  rfl

theorem movedHuge_same : (w.movedHuge huge n value).huges huge = value := Function.update_self _ _ _

theorem movedHuge_other {other : Nat} (different : other ≠ huge) :
    (w.movedHuge huge n value).huges other = w.huges other := Function.update_of_ne different _ _

theorem movedHuge_mapped (x : Nat) : (w.movedHuge huge n value).Mapped x ↔
    w.Mapped x ∧ ¬ ((w.huges huge).key ≤ x ∧ x < (w.huges huge).key + (w.huges huge).len) :=
  mapped_removeMap (w.copyBytes _).countMunmap _ x

theorem movedHuge_owns {o : Owner} {x : Nat} (owns : Owns (w.movedHuge huge n value) g o x) :
    (o = .huge huge ∧ value.key ≤ x ∧ x < value.key + value.len) ∨
      (Owns w g o x ∧ o ≠ .huge huge) := by
  cases o with
  | internal root => exact Or.inr ⟨(movedHuge_change.owns (by simp) x).mp owns, by simp⟩
  | chunk chunk => exact Or.inr ⟨(movedHuge_change.owns (by simp) x).mp owns, by simp⟩
  | huge other =>
      rcases owns with ⟨member, low, high⟩
      by_cases same : other = huge
      · rw [same, movedHuge_same] at low high
        exact Or.inl ⟨by rw [same], low, high⟩
      · rw [movedHuge_other same] at low high
        exact Or.inr ⟨⟨member, low, high⟩, by simp [same]⟩

theorem movedHuge_located (member : huge ∈ w.arena.hugeAllocList) {p m : Nat} {o : Origin} :
    Located (w.movedHuge huge n value) p o m ↔
      (o = .huge huge ∧ value.key = p ∧ m = value.len) ∨ (Located w p o m ∧ o ≠ .huge huge) := by
  have list : (w.movedHuge huge n value).arena.hugeAllocList = w.arena.hugeAllocList := rfl
  cases o with
  | regular chunk b run =>
      rw [located_regular, located_regular, movedHuge_change.region]
      simp
  | huge other =>
      rw [located_huge, located_huge, list]
      by_cases same : other = huge
      · rw [same, movedHuge_same]
        simp [member]
      · rw [movedHuge_other same]
        simp [same]

/-- The huge mapping of which the bytes are copied to a range that nobody owns. -/
theorem Inv.moveHuge (inv : Inv w g none) (member : huge ∈ w.arena.hugeAllocList)
    (place : HugePlace value)
    (mapped : ∀ x, value.key ≤ x → x < value.key + value.len → w.Mapped x)
    (unowned : ∀ o x, value.key ≤ x → x < value.key + value.len → ¬ Owns w g o x) :
    Inv (w.movedHuge huge n value) g none := by
  apply inv.changeHuge movedHuge_change
  · exact fun other inside => inv.huge_block inside
  · exact inv.blocks.nodup .huge
  · intro other inside
    by_cases same : other = huge
    · rw [same, movedHuge_same]
      exact place
    · rw [movedHuge_other same]
      exact inv.huges other inside
  · intro other o x one two
    rcases movedHuge_owns one with ⟨same, low, high⟩ | before
    · rcases movedHuge_owns two with ⟨same', -⟩ | before'
      · rw [same, same']
      · exact absurd before'.1 (unowned o x low high)
    · rcases movedHuge_owns two with ⟨-, low, high⟩ | before'
      · exact absurd before.1 (unowned _ x low high)
      · exact (inv.owner _ _ x before.1 before'.1).symm
  · intro o x one
    apply (movedHuge_mapped x).mpr
    rcases movedHuge_owns one with ⟨-, low, high⟩ | ⟨before, other⟩
    · exact ⟨mapped x low high, fun inside => unowned (.huge huge) x low high ⟨member, inside⟩⟩
    · exact ⟨inv.owned o x before,
        fun inside => other (inv.owner o (.huge huge) x before ⟨member, inside⟩)⟩
  · exact fun x still => ((movedHuge_mapped x).mp still).1
  · intro p o m located
    have origin : (w.movedHuge huge n value).history.origin =
        Function.update w.history.origin value.key (some (.huge huge)) := rfl
    rw [origin]
    rcases (movedHuge_located member).mp located with ⟨rfl, rfl, -⟩ | ⟨before, -⟩
    · exact Function.update_self _ _ _
    · have large := place.large
      have different : p ≠ value.key := by
        intro same
        exact inv.not_located (fun o => unowned o p (by omega) (by omega)) o m before
      rw [Function.update_of_ne different]
      exact inv.origin p o m before

/-- The bytes of the mapping are where it has moved to; everything else is kept. -/
theorem Inv.moveHuge_replaced {request : Nat} (inv : Inv w g none)
    (member : huge ∈ w.arena.hugeAllocList) (place : HugePlace value)
    (mapped : ∀ x, value.key ≤ x → x < value.key + value.len → w.Mapped x)
    (unowned : ∀ o x, value.key ≤ x → x < value.key + value.len → ¬ Owns w g o x)
    (short : n ≤ (w.huges huge).len) (fits : n ≤ value.len)
    (enough : min (w.huges huge).len request ≤ n) :
    Replaced w (w.huges huge).key (w.huges huge).len value.key value.len request
      (w.movedHuge huge n value) := by
  have large := place.large
  have old : Located w (w.huges huge).key (.huge huge) (w.huges huge).len := ⟨member, rfl, rfl⟩
  have placed := inv.blocks.placed .huge huge member
  have bytes : ∀ x, ¬ (huge ≤ x ∧ x < huge + hugeChunkSizeof) →
      (w.movedHuge huge n value).memory x =
        (w.copyBytes ⟨value.key, (w.huges huge).key, n⟩).memory x :=
    fun x outside => scribble_other outside
  have external : ∀ x, value.key ≤ x → x < value.key + value.len →
      ¬ (huge ≤ x ∧ x < huge + hugeChunkSizeof) := by
    intro x low high inside
    rcases placed.internal inside.1 inside.2 with ⟨root, listed, range⟩
    exact unowned (.internal root) x low high ⟨listed, range⟩
  have new : ∀ o m, ¬ Located w value.key o m :=
    inv.not_located fun o => unowned o value.key (Nat.le_refl _) (by omega)
  refine ⟨⟨g, inv.moveHuge member place mapped unowned⟩,
    ⟨?_, ?_, ⟨[], movedHuge_change.granted, ?_⟩⟩, ?_, ?_,
    ⟨.huge huge, (movedHuge_located member).mpr (Or.inl ⟨rfl, rfl, rfl⟩)⟩, new,
    ⟨n, enough, short, fits, movedHuge_copies, ?_⟩, stocked_bins movedHuge_change.bins⟩
  · intro p o m stays found
    refine (movedHuge_located member).mpr (Or.inr ⟨found, ?_⟩)
    intro same
    rw [same] at found
    exact stays found.2.1.symm
  · intro p o m x _ found low high
    have user : UserByte w x := ⟨p, o, m, found, low, high⟩
    rw [bytes x (inv.user_apart user placed)]
    apply if_neg
    intro inside
    have inDst : value.key ≤ x ∧ x < value.key + n := inside
    exact unowned _ x inDst.1 (by omega) (inv.located_owner found low high)
  · intro p x spent
    left
    rcases spent with ⟨chunk, b, run, region, inside⟩ | gone
    · exact Or.inl ⟨chunk, b, run, movedHuge_change.region.mpr region, inside⟩
    · exact Or.inr fun still => gone ((movedHuge_mapped x).mp still).1
  · intro o m found
    rcases (movedHuge_located member).mp found with ⟨-, same, -⟩ | ⟨before, other⟩
    · exact new (.huge huge) _ (same.symm ▸ old)
    · exact other (inv.located_unique before old).1
  · intro x low high
    exact Or.inr fun still => ((movedHuge_mapped x).mp still).2 ⟨low, high⟩
  · intro i inside
    rw [bytes (value.key + i) (external _ (Nat.le_add_right _ i) (by omega))]
    have inDst : value.key ≤ value.key + i ∧ value.key + i < value.key + n :=
      ⟨Nat.le_add_right _ i, by omega⟩
    unfold World.copyBytes
    simp only [if_pos inDst, Nat.add_sub_cancel_left]

end Move

section Specs

variable {ends : Ends World} {w : World} {g : Layout} {env : Env}

theorem Replaced.earlier {w₁ w' : World} {ptr len q newLen request : Nat} {o : Origin}
    (old : Located w ptr o len) (grows : Grows w w₁) (stocked : Stocked w → Stocked w₁)
    (replaced : Replaced w₁ ptr len q newLen request w') :
    Replaced w ptr len q newLen request w' where
  inv := replaced.inv
  keeps := (grows.keeps.trans replaced.keeps).mono fun _ is => is.elim False.elim id
  gone := replaced.gone
  spent := replaced.spent
  located := replaced.located
  new := fun o n found => replaced.new o n (grows.keeps.located q o n id found)
  copied := by
    rcases replaced.copied with ⟨n, enough, short, fits, copies, bytes⟩
    refine ⟨n, enough, short, fits, ?_, ?_⟩
    · rw [copies, grows.copies]
    · intro i inside
      rw [bytes i inside]
      exact grows.keeps.bytes ptr o len (ptr + i) id old (Nat.le_add_right ptr i) (by omega)
  stocked := fun before => replaced.stocked (stocked before)

/-- `arena_reallocate_huge_mapping` to a length that is huge again. -/
theorem arenaReallocateHugeMapping_wp {fuel huge newSize : Nat}
    (exits : Exits env ends) (inv : Inv w g none)
    (member : huge ∈ w.arena.hugeAllocList) (large : largeSizeMaxRegion < newSize)
    (pages : newSize % pageSize = 0) (loops : ends.fuel) :
    wp ends (arenaReallocateHugeMapping env fuel huge newSize) (fun _ w' =>
      Replaced w (w.huges huge).key (w.huges huge).len (w'.huges huge).key newSize newSize w' ∧
        ¬ env.Fails w.mmapCalls) w := by
  have place := inv.huges huge member
  unfold arenaReallocateHugeMapping
  rw [wp_bind]
  apply wp_mono (arenaMorecore_wp loops (resetPtrStart_resets env .hugeAlloc) fuel newSize
    (fun _ => maxUserspaceAddr64) inv.brk)
  intro map w₁ got
  rcases got with ⟨mapped, fresh, working⟩
  rw [wp_bind]
  apply wp_mono (skipMapping_wp .hugeAlloc map (u64 (newSize + pageSize)))
  intro _ w₂ skipped
  have frame := mapped.trans skipped
  have fresh₂ := fresh.mono skipped
  have inv₂ := inv.metaFrame frame.metaFrame fun _ _ _ => id
  have unowned := fun o x low high => inv.unowned frame fresh₂ o x ⟨low, high⟩
  have listed : huge ∈ w₂.arena.hugeAllocList := by
    rw [frame.hugeAllocList]
    exact member
  have value : w₂.huges huge = w.huges huge := by rw [frame.huges]
  have newPlace : HugePlace ⟨map, newSize⟩ :=
    ⟨fresh.aligned, fresh.start, large, pages, fresh.low⟩
  have old : Located w (w.huges huge).key (.huge huge) (w.huges huge).len := ⟨member, rfl, rfl⟩
  simp only [wp_bind, wp_get, memcpy, wp_modify]
  rw [value]
  apply platformUnmap_wp exits (inv₂.copyBytes _).findings place.aligned place.unmapping
  simp only [wp_modify, setOrigin]
  generalize count : (if (w.huges huge).len > newSize then newSize else (w.huges huge).len) = n
  have bound : n ≤ (w.huges huge).len ∧ n ≤ newSize ∧ min (w.huges huge).len newSize ≤ n := by
    rw [← count]
    split
    · omega
    · omega
  have replaced := @Inv.moveHuge_replaced w₂ g huge n ⟨map, newSize⟩ newSize inv₂ listed newPlace
    (fun x low high => fresh₂.after x ⟨low, high⟩) unowned (by
      rw [value]
      exact bound.1) bound.2.1 (by
      rw [value]
      exact bound.2.2)
  have world : w₂.movedHuge huge n ⟨map, newSize⟩ =
      (((w₂.copyBytes ⟨map, (w.huges huge).key, n⟩).countMunmap.removeMap
        ⟨(w.huges huge).key, (w.huges huge).len⟩).setHuge huge ⟨map, newSize⟩).record
      { (((w₂.copyBytes ⟨map, (w.huges huge).key, n⟩).countMunmap.removeMap
        ⟨(w.huges huge).key, (w.huges huge).len⟩).setHuge huge ⟨map, newSize⟩).history with
        origin := Function.update (((w₂.copyBytes ⟨map, (w.huges huge).key,
          n⟩).countMunmap.removeMap ⟨(w.huges huge).key, (w.huges huge).len⟩).setHuge huge
            ⟨map, newSize⟩).history.origin map (some (.huge huge)) } := by
    unfold World.movedHuge
    rw [value]
  rw [← world, movedHuge_same]
  rw [value] at replaced
  exact ⟨replaced.earlier old (frame.metaFrame.grows inv) (stocked_bins frame.bins), working⟩

end Specs

end Sealloc
