import Sealloc.World.Balance
import Sealloc.SizeClass.Rounding

/-! How long the regions are that the allocator returns: none could be shorter. -/

namespace Sealloc

open Library

/-- The lengths that regions come in: the classes, and whole pages above them. -/
def regionLengths : Set Nat :=
  {len | len ∈ sizeClasses ∨ largeSizeMaxRegion < len ∧ len % pageSize = 0}

/-- The length of a region for `size` bytes. -/
def regionSize (size : Nat) : Nat :=
  if isSizeHuge size then alignupPage size else classSize (binIndex (alignupSize size))

theorem regionSize_small {size : Nat} (some : 1 ≤ size) (small : ¬ isSizeHuge size) :
    regionSize size = alignupSize size := by
  rw [regionSize, if_neg small]
  exact (binIndex_alignup some small).2.1.symm

theorem classSize_large_le {c : Nat} (class_ : c ∈ sizeClasses) : c ≤ largeSizeMaxRegion := by
  rcases class_ with ⟨b, valid, rfl⟩
  exact (classSize_facts b valid).2.2.1

theorem regionSize_least {size : Nat} (some : 1 ≤ size) (room : size ≤ sizeMax - 4095) :
    IsLeast {len | len ∈ regionLengths ∧ size ≤ len} (regionSize size) := by
  by_cases huge : isSizeHuge size
  · have pages := alignupPage_spec room
    have above : largeSizeMaxRegion < size := huge
    rw [regionSize, if_pos huge]
    refine ⟨⟨Or.inr ⟨by omega, pages.2.2⟩, pages.1⟩, ?_⟩
    rintro len ⟨class_ | ⟨-, whole⟩, enough⟩
    · have small := classSize_large_le class_
      omega
    · unfold pageSize at whole
      omega
  · have least := alignupSize_least some (not_lt.mp huge)
    rw [regionSize_small some huge]
    refine ⟨⟨Or.inl least.1.1, least.1.2⟩, ?_⟩
    rintro len ⟨class_ | ⟨large, -⟩, enough⟩
    · exact least.2 ⟨class_, enough⟩
    · exact (classSize_large_le least.1.1).trans large.le

/-- A size that wraps when it is rounded has no region. -/
theorem regionSize_room {size : Nat} (word : size < 2 ^ 64) (filled : 0 < regionSize size) :
    size ≤ sizeMax - 4095 := by
  by_contra last
  have huge : isSizeHuge size := by
    unfold isSizeHuge largeSizeMaxRegion
    unfold sizeMax at last
    omega
  rw [regionSize, if_pos huge] at filled
  unfold alignupPage clearLow u64 pageSize sizeMax at *
  omega

/-- Each class is at most 16 bytes longer than the one before it, or twice as long. -/
theorem classSize_step : ∀ b < 42, classSize (b + 1) ≤ classSize b + max 16 (classSize b) := by
  decide +kernel

/-- Less than 16 bytes or less than half of a region is not asked for. -/
theorem regionSize_waste {size : Nat} (some : 1 ≤ size) (room : size ≤ sizeMax - 4095) :
    regionSize size < size + max 16 size := by
  by_cases huge : isSizeHuge size
  · have pages := alignupPage_spec room
    have above : largeSizeMaxRegion < size := huge
    rw [regionSize, if_pos huge]
    unfold largeSizeMaxRegion at above
    omega
  · rcases (alignupSize_least some (not_lt.mp huge)).1.1 with ⟨b, valid, same⟩
    rw [regionSize_small some huge, ← same]
    cases b with
    | zero =>
        have first : classSize 0 = 16 := by decide
        omega
    | succ b =>
        have bin : b + 1 < 43 := valid
        have step := classSize_step b (by omega)
        have less := classSize_lt (Nat.lt_succ_self b) bin
        have short : classSize b < size := by
          by_contra enough
          have least := alignupSize_le some (not_lt.mp huge) (Nat.lt_of_succ_lt bin)
            (not_lt.mp enough)
          rw [← same] at least
          exact absurd less (not_lt.mpr least)
        omega

section Lengths

variable {w : World} {g : Layout} {env : Env} {fuel : Nat}

theorem requestSize_lt {size : Nat} (word : size < 2 ^ 64) : requestSize size < 2 ^ 64 := by
  unfold requestSize smallSizeMinRegion
  split
  · omega
  · exact word

/-- A region for `size` bytes is at the pointer that is returned. -/
def Sized (size : Nat) (r : Option Nat) (w : World) : Prop :=
  ∃ q o, r = some q ∧ Located w q o (regionSize size)

theorem seallocMalloc_sized {size : Nat} (inv : Inv w g none) (stocked : Stocked w)
    (word : size < 2 ^ 64) :
    wlp (seallocMalloc env fuel size) (Sized (requestSize size)) w := by
  have request := requestSize_spec size
  have same : (if size = 0 then smallSizeMinRegion else size) = requestSize size := rfl
  have word' := requestSize_lt word
  unfold seallocMalloc
  simp only [same]
  generalize requestSize size = n at request word' ⊢
  by_cases huge : isSizeHuge n
  · have sized : regionSize n = alignupPage n := if_pos huge
    rw [if_pos huge, wlp_bind]
    refine wlp_mono (wlp_of_wp (@arenaAllocateHugeMapping_wp mayEnd w g env fuel (alignupPage n)
      inv ((alignupPage_huge huge word').imp And.left And.left) (alignupPage_aligned n)
      trivial)) ?_
    intro addr w' post
    rw [wlp_bind, wlp_get, wlp_pure]
    refine ⟨_, .huge addr, rfl, ?_⟩
    rw [sized]
    exact post.1.located
  · rcases binIndex_alignup request.1 huge with ⟨isClass, class_, -⟩
    have sized : regionSize n = classSize (binIndex (alignupSize n)) := if_neg huge
    rw [if_neg huge, wlp_bind]
    refine wlp_mono (wlp_of_wp (@allocateRegular_wp mayEnd w g env fuel n inv stocked isClass
      (fun _ => class_) fun _ => trivial)) ?_
    intro ptr w' post
    rcases post.1.located with ⟨chunk, run, located⟩
    rw [wlp_pure]
    rw [← sized] at located
    exact ⟨ptr, _, rfl, located⟩

theorem seallocCalloc_sized {nmemb size : Nat} (inv : Inv w g none) (stocked : Stocked w) :
    wlp (seallocCalloc env fuel nmemb size)
      (fun r w' => r = none ∨ Sized (requestSize (u64 (nmemb * size))) r w') w := by
  unfold seallocCalloc
  by_cases nothing : nmemb = 0 ∨ size = 0
  · rw [if_pos nothing, wlp_pure]
    exact Or.inl rfl
  · rw [if_neg nothing, wlp_bind]
    refine wlp_mono (seallocMalloc_sized inv stocked (Nat.mod_lt _ (by decide))) ?_
    rintro r w₁ ⟨q, o, rfl, located⟩
    simp only [wlp_bind, memset0, wlp_modify, wlp_pure]
    exact Or.inr ⟨q, o, rfl, located⟩

/-- A region that was allocated is as long when the old one has been copied and freed. -/
theorem Sized.after {size p q len : Nat} {o o' : Origin} {w₁ w' : World} {copy : Copy}
    (old : Located w p o len) (new : ∀ o n, ¬ Located w q o n)
    (found : Located w₁ q o' (regionSize size)) (released : Released (w₁.copyBytes copy) p len w') :
    Sized size (some q) w' := by
  have different : q ≠ p := fun same => new o len (same ▸ old)
  exact ⟨q, o', rfl, released.keeps.located q o' _ different found⟩

/-- A huge mapping that is reallocated to whole pages. -/
theorem reallocHuge_sized {huge size : Nat} (inv : Inv w g none) (stocked : Stocked w)
    (member : huge ∈ w.arena.hugeAllocList) (word : size < 2 ^ 64)
    (pages : size % pageSize = 0) :
    wlp (reallocHuge env fuel huge size) (Sized (requestSize size)) w := by
  have old : Located w (w.huges huge).key (.huge huge) (w.huges huge).len := ⟨member, rfl, rfl⟩
  unfold reallocHuge
  by_cases large : isSizeHuge size
  · have positive : size ≠ 0 := by
      unfold isSizeHuge at large
      omega
    have same : requestSize size = size := if_neg positive
    have sized : regionSize size = size := by
      rw [regionSize, if_pos large]
      unfold alignupPage clearLow u64 pageSize at *
      omega
    rw [if_pos large, wlp_bind]
    refine wlp_mono (wlp_of_wp (@arenaReallocateHugeMapping_wp mayEnd w g env fuel huge size
      (exits_mayEnd env) inv member large pages trivial)) ?_
    intro _ w' post
    rcases post.1.located with ⟨o, located⟩
    rw [wlp_bind, wlp_get, wlp_pure, same]
    refine ⟨_, o, rfl, ?_⟩
    rw [sized]
    exact located
  · rw [if_neg large, wlp_bind]
    refine wlp_mono (wlp_both (@seallocMalloc_wp mayEnd w g env fuel size inv stocked word
      fun _ => trivial) (seallocMalloc_sized inv stocked word)) ?_
    rintro r w₁ ⟨⟨q, rfl, malloced, -⟩, q', o, same, located⟩
    rw [← Option.some.inj same] at located
    rcases malloced.inv with ⟨g₁, inv₁⟩
    have still := malloced.grows.keeps.located _ _ _ id old
    have key : (w₁.huges huge).key = (w.huges huge).key := still.2.1
    have length : (w₁.huges huge).len = (w.huges huge).len := still.2.2.symm
    simp only [wlp_bind, wlp_get, memcpy, wlp_modify]
    have copied := inv₁.copyBytes ⟨q, (w₁.huges huge).key, size⟩
    refine wlp_mono (wlp_of_wp (@arenaDeallocateHugeMapping_wp mayEnd _ _ env huge
      (exits_mayEnd env) copied still.1)) ?_
    intro _ w' released
    have place : ((w₁.copyBytes ⟨q, (w₁.huges huge).key, size⟩).huges huge) =
        w₁.huges huge := rfl
    rw [place, key, length] at released
    rw [wlp_pure]
    exact Sized.after old malloced.new located released

theorem reallocRegular_sized {chunk b run ptr len size : Nat} (inv : Inv w g none)
    (stocked : Stocked w) (located : Located w ptr (.regular chunk b run) len)
    (word : size < 2 ^ 64) (sane : size = 0 → w.arena.bins 36 ≠ Bin.zero) :
    wlp (reallocRegular env fuel chunk b run ptr size) (Sized size) w := by
  unfold reallocRegular
  simp only [wlp_bind, wlp_get]
  by_cases large : isSizeHuge size
  · have sized : regionSize size = alignupPage size := if_pos large
    simp only [if_pos large, wlp_bind]
    refine wlp_mono (wlp_of_wp (@arenaAllocateHugeMapping_wp mayEnd w g env fuel
      (alignupPage size) inv ((alignupPage_huge large word).imp And.left And.left)
      (alignupPage_aligned size) trivial)) ?_
    intro huge w₁ post
    rcases post with ⟨made, -, -⟩
    rcases made.inv with ⟨g₁, inv₁⟩
    have still := made.grows.keeps.located ptr _ len id located
    have copied := inv₁.copyBytes ⟨(w₁.huges huge).key, ptr, (w.arena.bins b).regSize⟩
    simp only [wlp_get, memcpy, wlp_modify]
    refine wlp_mono (wlp_of_wp (seallocFreeWithMetadata_wp (exits_mayEnd env) copied still.1)) ?_
    intro _ w' released
    simp only [wlp_pure]
    have different : (w₁.huges huge).key ≠ ptr := by
      intro same
      exact made.new _ _ (same ▸ located)
    have found := released.keeps.located (w₁.huges huge).key (.huge huge) (alignupPage size)
      different made.located
    rw [found.2.1]
    refine ⟨_, .huge huge, rfl, ?_⟩
    rw [sized]
    exact found
  · have isClass := realloc_class sane large
    have sized : regionSize size = classSize (binIndex (alignupSize size)) := if_neg large
    simp only [if_neg large, wlp_bind]
    refine wlp_mono (wlp_of_wp (@allocateRegular_wp mayEnd w g env fuel size inv stocked
      isClass.1 isClass.2 fun _ => trivial)) ?_
    intro q w₁ post
    rcases post with ⟨allocated, -⟩
    rcases allocated.inv with ⟨g₁, inv₁⟩
    rcases allocated.located with ⟨chunk', run', found⟩
    have still := allocated.grows.keeps.located ptr _ len id located
    simp only [wlp_get, memcpy, wlp_modify]
    rw [← sized] at found
    refine wlp_mono (wlp_of_wp (seallocFreeWithMetadata_wp (exits_mayEnd env)
      (inv₁.copyBytes ⟨q, ptr, _⟩) still.1)) ?_
    intro _ w' released
    rw [wlp_pure]
    rw [← located.2] at released
    exact Sized.after located allocated.new found released

theorem seallocRealloc_sized {p len size : Nat} {o : Origin} (inv : Inv w g none)
    (stocked : Stocked w) (located : Located w p o len) (word : size < 2 ^ 64) :
    wlp (seallocRealloc env fuel (some p) size) (Sized (o.allocates size)) w := by
  intro r w' run
  have sane := inv.realloc_sane located run
  suffices holds : wlp (seallocRealloc env fuel (some p) size) (Sized (o.allocates size)) w from
    holds r w' run
  refine wlp_of_eq (bind_ok (inv.locate located)) ?_
  cases o with
  | huge huge =>
      rcases located with ⟨member, rfl, rfl⟩
      exact reallocHuge_sized inv stocked member (alignupPage_lt size) (alignupPage_aligned size)
  | regular chunk b run =>
      have nonzero := inv.region_regSize located.1
      have valid := (inv.validate_region located.1).mpr rfl
      simp only [Origin.metadata, wlp_bind, wlp_get, if_neg nonzero, if_neg valid]
      apply reallocRegular_sized inv stocked located word
      intro nothing
      rcases sane nothing with ⟨huge, impossible⟩ | used
      · simp at impossible
      · exact used

end Lengths

/-- The bytes that the allocator looks for when it is called. The product of `calloc` wraps, and
a huge mapping is reallocated to whole pages. -/
def Session.serves (s : Session) : Call → Nat
  | .malloc size => requestSize size
  | .calloc nmemb size => requestSize (u64 (nmemb * size))
  | .realloc none size => requestSize size
  | .realloc (some p) size =>
      match s.world.history.origin p with
      | some o => o.allocates size
      | none => 0
  | .free _ => 0

section Sessions

variable {s : Session} {call : Call} {env : Env} {fuel q : Nat} {w : World}

theorem Inv.serves_realloc {g : Layout} {p n size : Nat} {o : Origin} (inv : Inv s.world g none)
    (located : Located s.world p o n) : s.serves (.realloc (some p) size) = o.allocates size := by
  unfold Session.serves
  simp only [inv.origin _ _ _ located]

theorem Session.Inv.sized (inv : s.Inv) (legal : call.Legal s)
    (run : call.run env fuel s.world = .ok (some q) w) :
    s.serves call < 2 ^ 64 ∧ ∃ o, Located w q o (regionSize (s.serves call)) := by
  rcases inv.inv with ⟨g, world⟩
  have returned : ∀ size, Sized size (some q) w → ∃ o, Located w q o (regionSize size) := by
    rintro size ⟨q', o, same, located⟩
    rw [← Option.some.inj same] at located
    exact ⟨o, located⟩
  cases call with
  | malloc size =>
      exact ⟨requestSize_lt legal.1,
        returned _ (seallocMalloc_sized world inv.stocked legal.1 _ _ run)⟩
  | calloc nmemb size =>
      rcases seallocCalloc_sized world inv.stocked _ _ run with nothing | sized
      · simp at nothing
      · exact ⟨requestSize_lt (Nat.mod_lt _ (by decide)), returned _ sized⟩
  | realloc ptr size =>
      cases ptr with
      | none =>
          exact ⟨requestSize_lt legal.1,
            returned _ (seallocMalloc_sized world inv.stocked legal.1 _ _ run)⟩
      | some p =>
          rcases legal.2 p rfl with ⟨region, member, rfl⟩
          rcases inv.located region member with ⟨o, old⟩
          rw [world.serves_realloc old]
          refine ⟨?_, returned _ (seallocRealloc_sized world inv.stocked old legal.1 _ _ run)⟩
          cases o with
          | huge huge => exact requestSize_lt (alignupPage_lt size)
          | regular chunk b r => exact legal.1
  | free ptr =>
      have nothing := Call.free_returns (some q) w run
      simp at nothing

/-- A call that returns a region returns one of the least length that holds what the call looks
for, less than 16 bytes or less than half of which is not asked for. What looks for no bytes, a
region of a run that is reallocated to none, becomes one of 16 KiB. -/
theorem served_least (reach : Reach anyCalls s) (legal : call.Legal s)
    (run : call.run env fuel s.world = .ok (some q) w) :
    (1 ≤ s.serves call →
      IsLeast {len | len ∈ regionLengths ∧ s.serves call ≤ len} (w.regionLen q) ∧
        w.regionLen q < s.serves call + max 16 (s.serves call)) ∧
    (s.serves call = 0 → w.regionLen q = largeSizeMinRegion) := by
  rcases reach.inv.sized legal run with ⟨word, o, located⟩
  rcases (reach.inv.answered legal run).inv with ⟨g, world⟩
  have room := regionSize_room word (world.located_pos located)
  rw [world.regionLen located]
  constructor
  · intro some
    exact ⟨regionSize_least some room, regionSize_waste some room⟩
  · intro nothing
    rw [nothing]
    decide +kernel

/-- A huge region that is reallocated to a byte more than fits it. -/
theorem served_least_page : ∃ (s : Session) (w : World) (q : Nat), Reach anyCalls s ∧
    s.serves (.realloc (some (2 ^ 46)) (2 ^ 21 + 1)) = 2 ^ 21 + 4096 ∧
    (1 ≤ s.serves (.realloc (some (2 ^ 46)) (2 ^ 21 + 1)) →
      IsLeast {len | len ∈ regionLengths ∧ s.serves (.realloc (some (2 ^ 46)) (2 ^ 21 + 1)) ≤ len}
        (w.regionLen q) ∧
      w.regionLen q < s.serves (.realloc (some (2 ^ 46)) (2 ^ 21 + 1)) +
        max 16 (s.serves (.realloc (some (2 ^ 46)) (2 ^ 21 + 1)))) ∧
    (s.serves (.realloc (some (2 ^ 46)) (2 ^ 21 + 1)) = 0 →
      w.regionLen q = largeSizeMinRegion) := by
  have played : (Session.play (.willing fun n => (n + 1) * 2 ^ 44) 3 (2 ^ 45)
      [.malloc (2 ^ 21)]).map (fun s => (s.live, s.world.history.origin (2 ^ 46),
        ((Call.realloc (some (2 ^ 46)) (2 ^ 21 + 1)).run (.willing fun n => (n + 1) * 2 ^ 44) 3
          s.world).returns fun r _ => r.isSome)) =
            some ([⟨2 ^ 46, 2 ^ 21, 2 ^ 21⟩], some (.huge 52776558264352), true) := by
    decide +kernel
  rcases Option.map_eq_some_iff.mp played with ⟨s, run, parts⟩
  rw [Prod.mk.injEq, Prod.mk.injEq] at parts
  rcases parts with ⟨live, origin, returned⟩
  have reach : Reach anyCalls s := play_reach (fun _ _ _ _ => trivial) (by decide) run
  have legal : (Call.realloc (some (2 ^ 46)) (2 ^ 21 + 1)).Legal s := by
    refine ⟨by decide, ?_⟩
    intro p same
    refine ⟨⟨2 ^ 46, 2 ^ 21, 2 ^ 21⟩, ?_, Option.some.inj same⟩
    rw [live]
    exact List.mem_singleton_self _
  have serves : s.serves (.realloc (some (2 ^ 46)) (2 ^ 21 + 1)) = 2 ^ 21 + 4096 := by
    unfold Session.serves
    simp only [origin]
    decide +kernel
  rcases Outcome.of_returns returned with ⟨r, w, call, isPtr⟩
  rcases Option.isSome_iff_exists.mp isPtr with ⟨q, rfl⟩
  exact ⟨s, w, q, reach, serves, served_least reach legal call⟩

end Sessions

end Sealloc
