import Sealloc.World.Session
import Sealloc.SizeClass.Rounding

/-! Which region sizes reach the bins.

The functions of `sealloc.c` are taken over any `arena_get_bin_by_reg_size`, so that one which
checks the sizes that it is given can stand in for it. -/

namespace Sealloc

open Library

section With

variable (getBin : Nat → Prog World Nat)

def allocateRegularWith (env : Env) (fuel size : Nat) : Prog World Nat := do
  let b ← getBin (alignupSize size)
  let w ← Prog.get
  if (w.arena.bins b).availRegs = 0 then
    arenaSupplyRuns env fuel b
  seallocAllocateWithBin env fuel b

def seallocMallocWith (env : Env) (fuel size : Nat) : Prog World (Option Nat) := do
  let size := if size = 0 then smallSizeMinRegion else size
  if isSizeHuge size then
    let huge ← arenaAllocateHugeMapping env fuel (alignupPage size)
    let w ← Prog.get
    return some (w.huges huge).key
  else
    let ptr ← allocateRegularWith getBin env fuel size
    return some ptr

def locateMetadataForPtrWith (ptr : Nat) : Prog World Metadata := do
  let w ← Prog.get
  match locateRun w.chunks ptr w.arena.chunkList with
  | none =>
      match arenaFindHugeMapping w ptr with
      | none => return .invalid
      | some huge => return .huge huge
  | some (chunk, info) =>
      let b ← getBin (if info.regSize > 0 then info.regSize else info.runSize)
      let w ← Prog.get
      return .regular chunk b (binGetRunByAddr w b info.runPtr)

def seallocFreeWith (env : Env) (ptr : Option Nat) : Prog World Unit :=
  match ptr with
  | none => return ()
  | some ptr => do
      match ← locateMetadataForPtrWith getBin ptr with
      | .invalid => Prog.abort
      | .huge huge => arenaDeallocateHugeMapping env huge
      | .regular _ _ none => Prog.crash
      | .regular chunk b (some run) => seallocFreeWithMetadata env chunk b run ptr

def reallocHugeWith (env : Env) (fuel huge newSize : Nat) : Prog World (Option Nat) := do
  if isSizeHuge newSize then
    arenaReallocateHugeMapping env fuel huge newSize
    let w ← Prog.get
    return some (w.huges huge).key
  else
    match ← seallocMallocWith getBin env fuel newSize with
    | none => return none
    | some newReg =>
        let w ← Prog.get
        memcpy newReg (w.huges huge).key newSize
        arenaDeallocateHugeMapping env huge
        return some newReg

def reallocRegularWith (env : Env) (fuel chunk b run ptr newSize : Nat) :
    Prog World (Option Nat) := do
  let old ← Prog.get
  let oldSize := (old.arena.bins b).regSize
  if isSizeHuge newSize then
    let huge ← arenaAllocateHugeMapping env fuel (alignupPage newSize)
    let w ← Prog.get
    memcpy (w.huges huge).key ptr oldSize
    seallocFreeWithMetadata env chunk b run ptr
    let w ← Prog.get
    return some (w.huges huge).key
  else
    let newPtr ← allocateRegularWith getBin env fuel newSize
    let w ← Prog.get
    let newRegSize := (w.arena.bins (binIndex (alignupSize newSize))).regSize
    memcpy newPtr ptr (if newRegSize > oldSize then oldSize else newRegSize)
    seallocFreeWithMetadata env chunk b run ptr
    return some newPtr

def seallocReallocWith (env : Env) (fuel : Nat) (ptr : Option Nat) (newSize : Nat) :
    Prog World (Option Nat) :=
  match ptr with
  | none => seallocMallocWith getBin env fuel newSize
  | some ptr => do
      match ← locateMetadataForPtrWith getBin ptr with
      | .invalid => Prog.abort
      | .huge huge => reallocHugeWith getBin env fuel huge (alignupPage newSize)
      | .regular _ _ none => Prog.crash
      | .regular chunk b (some run) => do
          let w ← Prog.get
          if (w.arena.bins b).regSize = 0 then Prog.crash
          else if runValidatePtr (w.runs run) (w.arena.bins b) ptr = none then Prog.abort
          else reallocRegularWith getBin env fuel chunk b run ptr newSize

def seallocCallocWith (env : Env) (fuel nmemb size : Nat) : Prog World (Option Nat) :=
  if nmemb = 0 ∨ size = 0 then return none
  else do
    match ← seallocMallocWith getBin env fuel (u64 (nmemb * size)) with
    | none => return none
    | some ptr =>
        memset0 ptr (u64 (nmemb * size))
        return some ptr

def Call.runWith (env : Env) (fuel : Nat) : Call → Prog World (Option Nat)
  | .malloc size => seallocMallocWith getBin env fuel size
  | .calloc nmemb size => seallocCallocWith getBin env fuel nmemb size
  | .realloc ptr newSize => seallocReallocWith getBin env fuel ptr newSize
  | .free ptr => do
      seallocFreeWith getBin env ptr
      return none

end With

/-- With `arena_get_bin_by_reg_size` itself these are the functions of `sealloc.c`. -/
theorem Call.runWith_arena (call : Call) (env : Env) (fuel : Nat) :
    call.runWith arenaGetBinByRegSize env fuel = call.run env fuel := by
  cases call <;> rfl

/-- `arena_get_bin_by_reg_size`, which crashes as a division by zero does when the size that it
is given is no size class, and when the bin that it returns has another region size. -/
def checkedGetBin (regSize : Nat) : Prog World Nat := do
  if ∃ c < arenaNoBins, classSize c = regSize then
    let b ← arenaGetBinByRegSize regSize
    let w ← Prog.get
    if (w.arena.bins b).regSize = regSize then return b else Prog.crash
  else Prog.crash

/-- In the call only size classes reach the bins, each bin has the size that it is asked for,
and nothing is divided by zero. -/
def OnlyClasses (s : Session) (call : Call) : Prop :=
  ∀ env fuel w, call.runWith checkedGetBin env fuel s.world ≠ .crash w

section Checked

variable {w : World} {g : Layout} {env : Env} {fuel : Nat}

theorem wp_not_crash {σ α : Type} {ends : Ends σ} {x : Prog σ α} {Q : α → σ → Prop} {s : σ}
    (holds : wp ends x Q s) (t : σ) : x s ≠ .crash t := by
  intro crash
  unfold wp at holds
  rw [crash] at holds
  exact holds

/-- The check makes no difference for a size class. -/
theorem checkedGetBin_class (inv : Inv w g none) {c : Nat} (isClass : c < 43) :
    checkedGetBin (classSize c) w = arenaGetBinByRegSize (classSize c) w := by
  have some : ∃ d < arenaNoBins, classSize d = classSize c := ⟨c, isClass, rfl⟩
  have index := binIndex_classSize c isClass
  rcases arenaGetBinByRegSize_index some w with ⟨w', run⟩
  have spec := @arenaGetBinByRegSize_wp mayEnd w g (classSize c) inv (by rw [index]; exact isClass)
    fun _ => by rw [index]
  rcases (wp_ok spec run).2 with ⟨bin, rfl, -, -, ready, -⟩
  rw [index] at run ready
  have size : ((w.setBin c bin).arena.bins c).regSize = classSize c := by
    rw [setBin_same]
    exact ready.regSize
  unfold checkedGetBin
  rw [if_pos some, bind_apply, run]
  simp only [bind_apply, get_apply, if_pos size, pure_apply]

theorem checkedGetBin_other {regSize : Nat} (other : ¬ ∃ c < arenaNoBins, classSize c = regSize) :
    checkedGetBin regSize w = .crash w := by
  unfold checkedGetBin
  rw [if_neg other]
  rfl

/-- A size from 1 to the largest class is served as before. -/
theorem allocateRegular_checked (inv : Inv w g none) {size : Nat} (some : 1 ≤ size)
    (small : ¬ isSizeHuge size) :
    allocateRegularWith checkedGetBin env fuel size w = allocateRegular env fuel size w := by
  rcases alignupSize_class some (not_lt.mp small) with ⟨c, isClass, class_, -⟩
  have checked := checkedGetBin_class inv isClass
  rw [← class_] at checked
  exact bind_congr_left checked

theorem seallocMalloc_checked (inv : Inv w g none) (size : Nat) :
    seallocMallocWith checkedGetBin env fuel size w = seallocMalloc env fuel size w := by
  have positive : 1 ≤ if size = 0 then smallSizeMinRegion else size := by
    split_ifs with zero
    · decide
    · exact Nat.one_le_iff_ne_zero.mpr zero
  unfold seallocMallocWith seallocMalloc
  generalize (if size = 0 then smallSizeMinRegion else size) = size' at positive ⊢
  by_cases huge : isSizeHuge size'
  · simp only [if_pos huge]
  · simp only [if_neg huge]
    exact bind_congr_left (allocateRegular_checked inv positive huge)

theorem seallocCalloc_checked (inv : Inv w g none) (nmemb size : Nat) :
    seallocCallocWith checkedGetBin env fuel nmemb size w = seallocCalloc env fuel nmemb size w := by
  unfold seallocCallocWith seallocCalloc
  by_cases nothing : nmemb = 0 ∨ size = 0
  · rw [if_pos nothing, if_pos nothing]
  · rw [if_neg nothing, if_neg nothing]
    exact bind_congr_left (seallocMalloc_checked inv _)

theorem locate_checked (inv : Inv w g none) {p len : Nat} {o : Origin}
    (located : Located w p o len) :
    locateMetadataForPtrWith checkedGetBin p w = .ok o.metadata w := by
  rw [← inv.locate located]
  cases o with
  | regular chunk b run =>
      have region := located.1
      have isClass := (inv.ready region.1).isClass
      rcases inv.locateRun_region region with ⟨info, found, sized, -⟩
      have checked := checkedGetBin_class inv isClass
      rw [← sized] at checked
      unfold locateMetadataForPtrWith locateMetadataForPtr
      rw [bind_apply, bind_apply, get_apply]
      simp only [found]
      exact bind_congr_left checked
  | huge huge =>
      rcases located with ⟨member, rfl, -⟩
      have missed := inv.locateRun_huge member
      unfold locateMetadataForPtrWith
      rw [inv.locate_huge member, bind_apply, get_apply]
      have found := inv.locate_huge member
      unfold locateMetadataForPtr at found
      rw [bind_apply, get_apply] at found
      simp only [missed] at found ⊢
      exact found

theorem seallocFree_checked (inv : Inv w g none) {p len : Nat} {o : Origin}
    (located : Located w p o len) :
    seallocFreeWith checkedGetBin env (some p) w = seallocFree env (some p) w := by
  have same := (locate_checked inv located).trans (inv.locate located).symm
  exact bind_congr_left same

theorem reallocHuge_checked (inv : Inv w g none) (huge newSize : Nat) :
    reallocHugeWith checkedGetBin env fuel huge newSize w =
      reallocHuge env fuel huge newSize w := by
  unfold reallocHugeWith reallocHuge
  by_cases large : isSizeHuge newSize
  · rw [if_pos large, if_pos large]
  · rw [if_neg large, if_neg large]
    exact bind_congr_left (seallocMalloc_checked inv newSize)

theorem reallocRegular_checked (inv : Inv w g none) (chunk b run p : Nat) {newSize : Nat}
    (some : 1 ≤ newSize) :
    reallocRegularWith checkedGetBin env fuel chunk b run p newSize w =
      reallocRegular env fuel chunk b run p newSize w := by
  unfold reallocRegularWith reallocRegular
  rw [bind_apply, bind_apply, get_apply]
  by_cases large : isSizeHuge newSize
  · simp only [if_pos large]
  · simp only [if_neg large]
    exact bind_congr_left (allocateRegular_checked inv some large)

theorem seallocRealloc_checked (inv : Inv w g none) {p len newSize : Nat} {o : Origin}
    (located : Located w p o len) (sane : 1 ≤ newSize ∨ ∃ huge, o = .huge huge) :
    seallocReallocWith checkedGetBin env fuel (some p) newSize w =
      seallocRealloc env fuel (some p) newSize w := by
  refine (bind_ok (locate_checked inv located)).trans
    (Eq.trans ?_ (bind_ok (inv.locate located)).symm)
  cases o with
  | huge huge => exact reallocHuge_checked inv huge (alignupPage newSize)
  | regular chunk b run =>
      have some : 1 ≤ newSize := by
        rcases sane with positive | ⟨huge, same⟩
        · exact positive
        · exact absurd same Origin.noConfusion
      have same := @reallocRegular_checked w g env fuel inv chunk b run p newSize some
      unfold Origin.metadata
      simp only [bind_apply, get_apply]
      split
      · rfl
      · split
        · rfl
        · exact same

/-- A reallocation to no bytes asks for a bin of the size 0, which is no class. -/
theorem allocateRegular_zero : allocateRegularWith checkedGetBin env fuel 0 w = .crash w := by
  have other : ¬ ∃ c < arenaNoBins, classSize c = 0 := by
    rintro ⟨c, valid, zero⟩
    have least := (classSize_facts c valid).1
    omega
  unfold allocateRegularWith
  rw [bind_apply, alignupSize_zero.1, checkedGetBin_other other]

theorem seallocRealloc_regular_zero (inv : Inv w g none) {p len chunk b run : Nat}
    (located : Located w p (.regular chunk b run) len) :
    seallocReallocWith checkedGetBin env fuel (some p) 0 w = .crash w := by
  have nonzero := inv.region_regSize located.1
  have valid := (inv.validate_region located.1).mpr rfl
  have small : ¬ isSizeHuge 0 := by decide
  have allocation : reallocRegularWith checkedGetBin env fuel chunk b run p 0 w = .crash w := by
    unfold reallocRegularWith
    simp only [bind_apply, get_apply, if_neg small, allocateRegular_zero]
  refine (bind_ok (locate_checked inv located)).trans ?_
  unfold Origin.metadata
  simp only [bind_apply, get_apply, if_neg nonzero, if_neg valid]
  exact allocation

/-- A reallocation to no bytes of a region of a run. -/
def ReallocsRegularToZero (s : Session) (call : Call) : Prop :=
  ∃ p chunk b run, call = .realloc (some p) 0 ∧
    s.world.history.origin p = some (.regular chunk b run)

/-- The check of the sizes makes no difference for a call that does not reallocate a region of
a run to no bytes. -/
theorem Call.runWith_checked {call : Call} (inv : Inv w g none)
    (located : ∀ p, call.old = some p → ∃ o len, Located w p o len)
    (sane : ∀ p, call = .realloc (some p) 0 →
      ∀ o len, Located w p o len → ∃ huge, o = .huge huge) :
    call.runWith checkedGetBin env fuel w = call.run env fuel w := by
  cases call with
  | malloc size => exact seallocMalloc_checked inv size
  | calloc nmemb size => exact seallocCalloc_checked inv nmemb size
  | free ptr =>
      cases ptr with
      | none => rfl
      | some p =>
          rcases located p rfl with ⟨o, len, found⟩
          exact bind_congr_left (seallocFree_checked inv found)
  | realloc ptr newSize =>
      cases ptr with
      | none => exact seallocMalloc_checked inv newSize
      | some p =>
          rcases located p rfl with ⟨o, len, found⟩
          apply seallocRealloc_checked inv found
          by_cases zero : newSize = 0
          · exact Or.inr (sane p (by rw [zero]) o len found)
          · exact Or.inl (Nat.one_le_iff_ne_zero.mpr zero)

end Checked

section Sessions

variable {s : Session} {call : Call}

theorem Session.Inv.keeps_classes (inv : s.Inv) (legal : call.Legal s)
    (sane : ¬ ReallocsRegularToZero s call) : OnlyClasses s call := by
  intro env fuel w
  rcases inv.inv with ⟨g, world⟩
  rcases inv.legal legal with ⟨words, located⟩
  have huge : ∀ p, call = .realloc (some p) 0 →
      ∀ o len, Located s.world p o len → ∃ huge, o = .huge huge := by
    intro p same o len found
    cases o with
    | huge huge => exact ⟨huge, rfl⟩
    | regular chunk b run =>
        exact absurd ⟨p, chunk, b, run, same, world.origin p _ len found⟩ sane
  rw [Call.runWith_checked world located huge]
  rcases @Call.run_wp _ _ env fuel call world inv.stocked words located with holds | ⟨⟨p, same⟩, -⟩
  · exact wp_not_crash holds w
  · rcases located p (by rw [same]; rfl) with ⟨o, len, found⟩
    rw [same]
    exact wp_not_crash (seallocRealloc_wp (exits_mayEnd env) world inv.stocked found
      (by decide) (fun _ => Or.inl (huge p same o len found)) fun _ => trivial) w

/-- In every state that can be reached, exactly the calls that do not reallocate a region of a
run to no bytes keep to the size classes. -/
theorem only_classes (reach : Reach anyCalls s) (legal : call.Legal s) :
    OnlyClasses s call ↔ ¬ ReallocsRegularToZero s call := by
  constructor
  · rintro only ⟨p, chunk, b, run, rfl, origin⟩
    rcases reach.inv.inv with ⟨g, world⟩
    rcases (reach.inv.legal legal).2 p rfl with ⟨o, len, found⟩
    have same := world.origin p o len found
    rw [origin] at same
    rw [← Option.some.inj same] at found
    exact only (Env.willing fun _ => 0) 0 s.world (seallocRealloc_regular_zero world found)
  · exact reach.inv.keeps_classes legal

/-- A huge region may be reallocated to no bytes. -/
theorem only_classes_huge : ∃ s ptr, Reach anyCalls s ∧
    (Call.realloc (some ptr) 0).Legal s ∧ OnlyClasses s (.realloc (some ptr) 0) := by
  have played : (Session.play (.willing fun n => (n + 1) * 2 ^ 44) 3 (2 ^ 45)
      [.malloc (2 ^ 21)]).map (fun s => (s.live, s.world.history.origin (2 ^ 46))) =
        some ([⟨2 ^ 46, 2 ^ 21, 2 ^ 21⟩], some (.huge 52776558264352)) := by decide +kernel
  rcases Option.map_eq_some_iff.mp played with ⟨s, run, parts⟩
  rw [Prod.mk.injEq] at parts
  rcases parts with ⟨live, origin⟩
  have reach : Reach anyCalls s := play_reach (fun _ _ _ _ => trivial) (by decide) run
  have legal : (Call.realloc (some (2 ^ 46)) 0).Legal s := by
    refine ⟨by decide, ?_⟩
    intro p same
    refine ⟨⟨2 ^ 46, 2 ^ 21, 2 ^ 21⟩, ?_, Option.some.inj same⟩
    rw [live]
    exact List.mem_singleton_self _
  refine ⟨s, 2 ^ 46, reach, legal, (only_classes reach legal).mpr ?_⟩
  rintro ⟨p, chunk, b, run, same, regular⟩
  injection same with ptr
  rw [← Option.some.inj ptr, origin] at regular
  simp at regular

/-- With a region of 16 bytes as the first one, its reallocation to no bytes divides by zero. -/
theorem realloc_zero_crashes : ∃ s ptr, Reach anyCalls s ∧
    (Call.realloc (some ptr) 0).Legal s ∧ ¬ OnlyClasses s (.realloc (some ptr) 0) ∧
    ∀ env fuel, seallocRealloc env fuel (some ptr) 0 s.world = .crash s.world := by
  have played : (Session.play (.willing fun n => (n + 1) * 2 ^ 44) 3 (2 ^ 45) [.malloc 16]).map
      (fun s => (s.live, s.world.history.origin 1048592, s.world.arena.bins 36)) =
        some ([⟨1048592, 16, 16⟩], some (.regular 52776558264352 0 52776558297120), Bin.zero) := by
    decide +kernel
  rcases Option.map_eq_some_iff.mp played with ⟨s, run, parts⟩
  rw [Prod.mk.injEq, Prod.mk.injEq] at parts
  rcases parts with ⟨live, origin, unused⟩
  have reach : Reach anyCalls s := play_reach (fun _ _ _ _ => trivial) (by decide) run
  have member : (⟨1048592, 16, 16⟩ : UserRegion) ∈ s.live := by
    rw [live]
    exact List.mem_singleton_self _
  have legal : (Call.realloc (some 1048592) 0).Legal s := by
    refine ⟨by decide, ?_⟩
    intro p same
    exact ⟨_, member, Option.some.inj same⟩
  rcases reach.inv.inv with ⟨g, world⟩
  rcases reach.inv.located _ member with ⟨o, found⟩
  have same := world.origin _ o _ found
  rw [origin] at same
  rw [← Option.some.inj same] at found
  refine ⟨s, 1048592, reach, legal, ?_, ?_⟩
  · intro only
    exact only (Env.willing fun _ => 0) 0 s.world (seallocRealloc_regular_zero world found)
  · intro env fuel
    exact seallocRealloc_zero world found unused

end Sessions

end Sealloc
