import Sealloc.World.Regions

/-! Allocation of a region: `sealloc_allocate_with_bin` and what its callers do before it. -/

namespace Sealloc

open Library Chunk

section Bins

variable {w : World} {g : Layout} {b : Nat}

theorem binReady_init (isClass : b < 43) (runs : Nat → Run) :
    BinReady b (Bin.init (classSize b)) runs := by
  rcases binInit_class b isClass with ⟨size, -, bits, pages, -⟩
  refine ⟨isClass, size, pages, bits, rfl, rfl, Nat.zero_le _, ?_, ?_⟩
  · intro run member
    exact absurd member List.not_mem_nil
  · intro run member
    exact absurd member List.not_mem_nil

theorem entries_zero (zero : w.arena.bins b = Bin.zero) : w.arena.entries (.run b) = [] := by
  have lists : w.arena.entries (.run b) =
      (w.arena.bins b).runListActive ++ (w.arena.bins b).runListInactive := rfl
  rw [lists, zero]
  rfl

/-- A bin without runs is initialised. -/
theorem initBin_entries (zero : w.arena.bins b = Bin.zero) (kind : Kind) :
    (w.setBin b (Bin.init (classSize b))).arena.entries kind = w.arena.entries kind := by
  by_cases same : kind = .run b
  · rw [same, entries_setBin_same, entries_zero zero]
    rfl
  · exact entries_setBin_other same

theorem initBin_region (zero : w.arena.bins b = Bin.zero) {chunk c r ptr : Nat} {s : BState} :
    Region (w.setBin b (Bin.init (classSize b))) chunk c r ptr s ↔ Region w chunk c r ptr s := by
  unfold Region
  rw [initBin_entries zero]
  exact Iff.rfl

theorem Inv.initBin (inv : Inv w g none) (zero : w.arena.bins b = Bin.zero) (isClass : b < 43) :
    Inv (w.setBin b (Bin.init (classSize b))) g none := by
  have entries := initBin_entries zero
  refine ⟨inv.brk, ?_, inv.chunks, ?_, ?_, ?_, ?_, ?_, ?_, inv.huges, inv.owner, inv.owned,
    inv.granted, inv.findings, ?_⟩
  · apply inv.blocks.fewer
    · intro kind addr member
      rw [entries] at member
      refine ⟨member, ?_⟩
      have different : kind ≠ .run b := by
        intro same
        rw [same, entries_zero zero] at member
        exact absurd member List.not_mem_nil
      cases kind with
      | chunk => rfl
      | huge => rfl
      | run c =>
          have other : c ≠ b := fun same => different (by rw [same])
          unfold Arena.metaSize
          simp only [setBin_other w other]
    · intro kind
      rw [entries]
      exact inv.blocks.nodup kind
  · intro c run member
    rw [entries] at member
    exact inv.known c run member
  · intro c run member
    rw [entries] at member
    exact inv.runs c run member
  · intro chunk member n live waiting
    rcases inv.cover chunk member n live waiting with ⟨c, run, before, from_, node⟩
    refine ⟨c, run, ?_, from_, node⟩
    rw [entries]
    exact before
  · intro c c' run run' member member'
    rw [entries] at member member'
    exact inv.same c c' run run' member member'
  · intro chunk n impossible
    simp at impossible
  · intro c
    by_cases same : c = b
    · rw [same, setBin_same]
      exact Or.inr (binReady_init isClass w.runs)
    · rw [setBin_other w same]
      exact inv.bins c
  · intro ptr o len located
    apply inv.origin ptr o len
    cases o with
    | huge huge => exact located
    | regular chunk c r => exact ⟨(initBin_region zero).mp located.1, located.2⟩

theorem initBin_grows (zero : w.arena.bins b = Bin.zero) :
    Grows w (w.setBin b (Bin.init (classSize b))) where
  keeps := by
    apply Keeps.of_regions
    · exact ⟨[], rfl, fun x => by simp [World.Mapped, World.setBin, World.setArena]⟩
    · exact fun _ _ _ _ _ _ region => (initBin_region zero).mpr region
    · exact fun huge member => ⟨member, rfl⟩
    · exact fun _ _ => rfl
  copies := rfl
  calls := Nat.le_refl _

theorem setBin_self (w : World) (b : Nat) : w.setBin b (w.arena.bins b) = w := by
  unfold World.setBin World.setArena
  rw [Function.update_eq_self]

end Bins

/-- Every bin in use has all but one of the regions that a region is drawn from. -/
def Stocked (w : World) : Prop :=
  ∀ b, w.arena.bins b = Bin.zero ∨ binMinimumRegions - 1 ≤ (w.arena.bins b).availRegs

theorem stocked_bins {w w' : World} (bins : w'.arena.bins = w.arena.bins) (stocked : Stocked w) :
    Stocked w' := by
  unfold Stocked
  rw [bins]
  exact stocked

/-- A region of class `b` that was not allocated before, at `ptr`. -/
structure Allocated (w : World) (b ptr : Nat) (w' : World) : Prop where
  inv : ∃ g, Inv w' g none
  grows : Grows w w'
  located : ∃ chunk run, Located w' ptr (.regular chunk b run) (classSize b)
  new : ∀ o len, ¬ Located w ptr o len
  avail : binMinimumRegions - 1 ≤ (w'.arena.bins b).availRegs
  others : ∀ c, c ≠ b → w'.arena.bins c = w.arena.bins c

/-- The runs that a bin gets before it gives a region. -/
def runsNeeded (b availRegs : Nat) : Nat :=
  if availRegs = 0 then ceilDiv binMinimumRegions (classElems b)
  else if availRegs < binMinimumRegions then 1
  else 0

section Specs

variable {ends : Ends World} {w : World} {g : Layout} {env : Env} {b : Nat}

theorem Allocated.earlier {w₁ w₂ : World} {ptr : Nat} (grows : Grows w w₁)
    (others : ∀ c, c ≠ b → w₁.arena.bins c = w.arena.bins c) (allocated : Allocated w₁ b ptr w₂) :
    Allocated w b ptr w₂ where
  inv := allocated.inv
  grows := grows.trans allocated.grows
  located := allocated.located
  new := fun o len located => allocated.new o len (grows.keeps.located ptr o len id located)
  avail := allocated.avail
  others := fun c different => (allocated.others c different).trans (others c different)

theorem Allocated.stocked {ptr : Nat} {w' : World} (allocated : Allocated w b ptr w')
    (stocked : Stocked w) : Stocked w' := by
  intro c
  by_cases same : c = b
  · rw [same]
    exact Or.inr allocated.avail
  · rw [allocated.others c same]
    exact stocked c

/-- `arena_get_bin_by_reg_size` initialises a bin of the class that it is asked for. -/
theorem arenaGetBinByRegSize_wp {regSize : Nat} (inv : Inv w g none)
    (isClass : binIndex regSize < 43)
    (sized : w.arena.bins (binIndex regSize) = Bin.zero → regSize = classSize (binIndex regSize)) :
    wp ends (arenaGetBinByRegSize regSize) (fun b w' => b = binIndex regSize ∧ ∃ bin,
      w' = w.setBin b bin ∧ Inv w' g none ∧ Grows w w' ∧ BinReady b bin w.runs ∧
      bin.availRegs = (w.arena.bins b).availRegs) w := by
  unfold arenaGetBinByRegSize
  simp only [wp_bind, wp_get]
  rcases inv.bins (binIndex regSize) with zero | ready
  · have clear : (w.arena.bins (binIndex regSize)).regSize = 0 := by
      rw [zero]
      rfl
    have size := sized zero
    have facts := classSize_facts _ isClass
    have nonzero : regSize ≠ 0 := by omega
    simp only [if_pos clear, binInit, if_neg nonzero, wp_bind, wp_modify, wp_pure, true_and]
    refine ⟨Bin.init regSize, rfl, ?_, ?_, ?_, ?_⟩
    · rw [congrArg Bin.init size]
      exact inv.initBin zero isClass
    · rw [congrArg Bin.init size]
      exact initBin_grows zero
    · rw [congrArg Bin.init size]
      exact binReady_init isClass w.runs
    · rw [zero]
      rfl
  · have facts := classSize_facts _ isClass
    have set : (w.arena.bins (binIndex regSize)).regSize ≠ 0 := by
      rw [ready.regSize]
      omega
    simp only [if_neg set, wp_pure, true_and]
    exact ⟨_, (setBin_self w _).symm, inv, Grows.refl w, ready, rfl⟩

theorem runsNeeded_bound {availRegs : Nat} (isClass : b < 43) (none : availRegs = 0) :
    1 ≤ runsNeeded b availRegs ∧ binMinimumRegions ≤ runsNeeded b availRegs * classElems b ∧
      runsNeeded b availRegs * classElems b ≤ 2048 := by
  have facts := classSize_facts b isClass
  have elems : 0 < classElems b := facts.2.2.2.1
  have spec := ceilDiv_spec (a := binMinimumRegions) elems
  have most := spec.2.2 (binMinimumRegions / classElems b + 1) (by
    have split := Nat.div_add_mod binMinimumRegions (classElems b)
    have rest := Nat.mod_lt binMinimumRegions elems
    rw [Nat.succ_mul, Nat.mul_comm]
    omega)
  have upper : ceilDiv binMinimumRegions (classElems b) * classElems b ≤
      (binMinimumRegions / classElems b + 1) * classElems b := Nat.mul_le_mul_right _ most
  have whole := Nat.div_mul_le_self binMinimumRegions (classElems b)
  rw [Nat.succ_mul] at upper
  unfold runsNeeded
  rw [if_pos none]
  refine ⟨spec.2.1 (by decide), spec.1, ?_⟩
  unfold binMinimumRegions at *
  omega

/-- `arena_supply_runs` of a bin without regions. -/
theorem arenaSupplyRuns_wp {fuel : Nat} (inv : Inv w g none)
    (ready : BinReady b (w.arena.bins b) w.runs) (empty : (w.arena.bins b).availRegs = 0)
    (loops : ¬ w.RunsFit b (runsNeeded b 0) → ends.fuel) :
    wp ends (arenaSupplyRuns env fuel b) (fun _ w' => Supplied w b (runsNeeded b 0) w' ∧
      (env.Fails w.mmapCalls → w.RunsFit b (runsNeeded b 0))) w := by
  have bound := @runsNeeded_bound b 0 ready.isClass rfl
  have facts := classSize_facts b ready.isClass
  have nonzero : (w.arena.bins b).elems ≠ 0 := by
    rw [ready.elems]
    omega
  have rounds : ceilDiv (binMinimumRegions - (w.arena.bins b).availRegs) (w.arena.bins b).elems =
      runsNeeded b 0 := by
    rw [empty, ready.elems]
    rfl
  unfold arenaSupplyRuns
  simp only [wp_bind, wp_get]
  rw [if_neg nonzero, rounds]
  apply supplyRuns_wp _ w g inv ready _ loops
  rw [empty]
  omega

/-- The part of `sealloc_allocate_with_bin` after its bin has enough regions. -/
theorem drawRegion_wp (inv : Inv w g none)
    (enough : binMinimumRegions ≤ (w.arena.bins b).availRegs) :
    wp ends (do
      let w ← Prog.get
      note (.minimumRegions b (w.arena.bins b).availRegs)
      let run ← binGetRunForAllocation env b
      allocateFromRun b run) (fun ptr w' => Allocated w b ptr w') w := by
  have inv' := inv.noted (.minimumRegions b (w.arena.bins b).availRegs) enough 0
  have grows := noted_grows w (.minimumRegions b (w.arena.bins b).availRegs) 0
  have none : w.draw32 0 = w := rfl
  rw [none] at inv' grows
  rw [wp_bind, wp_get, wp_bind, note, wp_modify]
  generalize noted : w.record { w.history with
    findings := .minimumRegions b (w.arena.bins b).availRegs :: w.history.findings } = w₁
    at inv' grows ⊢
  have bins : w₁.arena.bins = w.arena.bins := by
    rw [← noted]
    rfl
  unfold binMinimumRegions at enough
  have available : 1 ≤ (w₁.arena.bins b).availRegs := by
    rw [bins]
    omega
  apply wp_mono (pickRegion_wp inv' available)
  intro ptr w₂ given
  have taken := given.earlier grows bins
  refine ⟨taken.inv, taken.grows, taken.located, taken.new, ?_, taken.others⟩
  have avail := taken.avail
  unfold binMinimumRegions
  omega

theorem seallocAllocateWithBin_wp {fuel : Nat} (inv : Inv w g none)
    (stocked : binMinimumRegions - 1 ≤ (w.arena.bins b).availRegs)
    (loops : ¬ w.RunsFit b (runsNeeded b (w.arena.bins b).availRegs) → ends.fuel) :
    wp ends (seallocAllocateWithBin env fuel b) (fun ptr w' => Allocated w b ptr w' ∧
      (env.Fails w.mmapCalls → w.RunsFit b (runsNeeded b (w.arena.bins b).availRegs))) w := by
  have nonzero : (w.arena.bins b).availRegs ≠ 0 := by
    unfold binMinimumRegions at stocked
    omega
  have ready := inv.ready_of_avail nonzero
  have facts := classSize_facts b ready.isClass
  unfold seallocAllocateWithBin
  rw [wp_bind, wp_get]
  by_cases few : (w.arena.bins b).availRegs < binMinimumRegions
  · have needs : runsNeeded b (w.arena.bins b).availRegs = 1 := by
      unfold runsNeeded
      rw [if_neg nonzero, if_pos few]
    have room : (w.arena.bins b).availRegs + classElems b ≤ 2048 := by
      unfold binMinimumRegions at few
      omega
    rw [needs] at loops ⊢
    simp only [if_pos few]
    rw [wp_bind]
    apply wp_mono (arenaAllocateRun_wp inv ready room loops)
    intro run w₁ post
    rcases post with ⟨made, -, working⟩
    have added := made.supplied room
    rcases added.inv with ⟨g', inv'⟩
    have avail := added.avail
    rw [Nat.one_mul] at avail
    have enough : binMinimumRegions ≤ ((w₁.binAdded b run).arena.bins b).availRegs := by
      unfold binMinimumRegions at stocked ⊢
      omega
    have drawn := @drawRegion_wp ends _ _ env b inv' enough
    rw [wp_bind, binAddRun, wp_modify]
    apply wp_mono drawn
    intro ptr w₂ allocated
    exact ⟨allocated.earlier added.grows added.others, working⟩
  · have needs : runsNeeded b (w.arena.bins b).availRegs = 0 := by
      unfold runsNeeded
      rw [if_neg nonzero, if_neg few]
    rw [needs]
    simp only [if_neg few]
    apply wp_mono (drawRegion_wp inv (Nat.le_of_not_lt few))
    intro ptr w₂ allocated
    exact ⟨allocated, fun _ => ⟨Nat.zero_le _, rfl⟩⟩

/-- What `sealloc_malloc` and `sealloc_realloc` do for a size that is not huge. -/
theorem allocateRegular_wp {fuel size : Nat} (inv : Inv w g none) (stocked : Stocked w)
    (isClass : binIndex (alignupSize size) < 43)
    (sized : w.arena.bins (binIndex (alignupSize size)) = Bin.zero →
      alignupSize size = classSize (binIndex (alignupSize size)))
    (loops : ¬ w.RunsFit (binIndex (alignupSize size)) (runsNeeded (binIndex (alignupSize size))
      (w.arena.bins (binIndex (alignupSize size))).availRegs) → ends.fuel) :
    wp ends (allocateRegular env fuel size) (fun ptr w' =>
      Allocated w (binIndex (alignupSize size)) ptr w' ∧
      (env.Fails w.mmapCalls → w.RunsFit (binIndex (alignupSize size))
        (runsNeeded (binIndex (alignupSize size))
          (w.arena.bins (binIndex (alignupSize size))).availRegs))) w := by
  unfold allocateRegular
  rw [wp_bind]
  apply wp_mono (arenaGetBinByRegSize_wp inv isClass sized)
  generalize binIndex (alignupSize size) = b at isClass sized loops ⊢
  intro c w₁ post
  rcases post with ⟨rfl, bin, rfl, inv₁, grows, ready, avail⟩
  have fits : ∀ n, (w.setBin c bin).RunsFit c n ↔ w.RunsFit c n := fun _ => Iff.rfl
  have same : (w.setBin c bin).arena.bins c = bin := setBin_same w
  have others : ∀ d, d ≠ c → (w.setBin c bin).arena.bins d = w.arena.bins d :=
    fun d different => setBin_other w different
  have ready' : BinReady c ((w.setBin c bin).arena.bins c) (w.setBin c bin).runs := by
    rw [same]
    exact ready
  have calls : (w.setBin c bin).mmapCalls = w.mmapCalls := rfl
  rw [← avail] at loops ⊢
  simp only [← fits, ← calls] at loops ⊢
  generalize w.setBin c bin = w₁ at inv₁ grows same others ready' loops ⊢
  rw [wp_bind, wp_get]
  rw [← same] at loops ⊢
  by_cases empty : (w₁.arena.bins c).availRegs = 0
  · simp only [if_pos empty, wp_bind]
    rw [empty] at loops ⊢
    apply wp_mono (arenaSupplyRuns_wp inv₁ ready' empty loops)
    intro _ w₂ post
    rcases post with ⟨supplied, working⟩
    rcases supplied.inv with ⟨g', inv₂⟩
    have bound := @runsNeeded_bound c 0 isClass rfl
    have avail' := supplied.avail
    have stock : binMinimumRegions ≤ (w₂.arena.bins c).availRegs := by omega
    have nothing : runsNeeded c (w₂.arena.bins c).availRegs = 0 := by
      unfold runsNeeded binMinimumRegions at *
      rw [if_neg (by omega), if_neg (by omega)]
    apply wp_mono (seallocAllocateWithBin_wp inv₂ (by omega) fun tight => by
      rw [nothing] at tight
      exact absurd ⟨Nat.zero_le _, rfl⟩ tight)
    intro ptr w₃ post
    refine ⟨?_, working⟩
    have allocated := post.1.earlier supplied.grows supplied.others
    exact allocated.earlier grows others
  · simp only [if_neg empty]
    have stock : binMinimumRegions - 1 ≤ (w₁.arena.bins c).availRegs := by
      rw [same, avail] at empty ⊢
      rcases stocked c with zero | enough
      · rw [zero] at empty
        exact absurd rfl empty
      · exact enough
    apply wp_mono (seallocAllocateWithBin_wp inv₁ stock loops)
    intro ptr w₃ post
    exact ⟨post.1.earlier grows others, post.2⟩

end Specs

end Sealloc
