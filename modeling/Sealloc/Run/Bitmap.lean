import Sealloc.Run

/-! The region states of a run, and the walk along its generator. -/

namespace Sealloc

open Library

theorem BState.ofByte_code (state : BState) :
    BState.ofByte (BitVec.ofNat 8 state.code.val) = state := by
  cases state <;> rfl

theorem getBitmapItem_set (mem : Nat → Byte) (i j : Nat) (state : BState) :
    getBitmapItem (setBitmapItem mem j state) i = if i = j then state else getBitmapItem mem i := by
  unfold getBitmapItem setBitmapItem
  by_cases same : i = j
  · rw [if_pos same, same, getCrumb_setCrumb_same, BState.ofByte_code]
  · rw [if_neg same, getCrumb_setCrumb_other _ _ same]

namespace Run

def state (run : Run) (idx : Nat) : BState := getBitmapItem run.regBitmap idx

/-- The number of the first `elems` regions in state `s`. -/
def count (run : Run) (elems : Nat) (s : BState) : Nat :=
  ((Finset.range elems).filter fun i => run.state i = s).card

/-- The region that the walk reaches in `k` steps. -/
def ahead (run : Run) (elems k : Nat) : Nat := (run.currentIdx + k * run.gen) % elems

/-- A run of `elems` regions between calls: its counters count, and the next `navail` regions
on its walk are free. -/
structure Inv (run : Run) (elems : Nat) : Prop where
  some : 1 ≤ elems
  few : elems ≤ 1024
  gen : Nat.Coprime run.gen elems
  current : run.currentIdx < elems
  navail : run.navail = run.count elems .free
  nfreed : run.nfreed = run.count elems .allocFree
  walk : ∀ k, 1 ≤ k → k ≤ run.navail → run.state (run.ahead elems k) = .free
  valid : ∀ i < elems, run.state i ≠ .invalid

variable {run : Run} {elems : Nat} {s : BState}

theorem count_le (run : Run) (elems : Nat) (s : BState) : run.count elems s ≤ elems := by
  unfold count
  apply (Finset.card_filter_le _ _).trans
  rw [Finset.card_range]

theorem count_pos {i : Nat} (inside : i < elems) (state : run.state i = s) :
    1 ≤ run.count elems s := by
  apply Finset.card_pos.mpr
  exact ⟨i, Finset.mem_filter.mpr ⟨Finset.mem_range.mpr inside, state⟩⟩

/-- When every region is in one state, none is in another. -/
theorem count_full (full : run.count elems s = elems) {i : Nat} (inside : i < elems) :
    run.state i = s := by
  have all : (Finset.range elems).filter (fun i => run.state i = s) = Finset.range elems := by
    apply Finset.eq_of_subset_of_card_le (Finset.filter_subset _ _)
    rw [Finset.card_range]
    exact full.ge
  have member : i ∈ (Finset.range elems).filter fun i => run.state i = s := by
    rw [all]
    exact Finset.mem_range.mpr inside
  exact (Finset.mem_filter.mp member).2

/-- Regions in different states together are at most all regions. -/
theorem count_add_le {t : BState} (different : s ≠ t) :
    run.count elems s + run.count elems t ≤ elems := by
  have apart : Disjoint ((Finset.range elems).filter fun i => run.state i = s)
      ((Finset.range elems).filter fun i => run.state i = t) := by
    apply Finset.disjoint_filter.mpr
    intro i _ one two
    exact different (one.symm.trans two)
  unfold count
  rw [← Finset.card_union_of_disjoint apart]
  calc
    _ ≤ (Finset.range elems).card :=
      Finset.card_le_card (Finset.union_subset (Finset.filter_subset _ _)
        (Finset.filter_subset _ _))
    _ = elems := Finset.card_range elems

section Store

variable {run' : Run} {j : Nat} {old new : BState}

/-- A region leaves its state. -/
theorem count_old (stores : ∀ i, run'.state i = if i = j then new else run.state i)
    (inside : j < elems) (before : run.state j = old) (different : new ≠ old) :
    run'.count elems old = run.count elems old - 1 := by
  unfold count
  have erased : (Finset.range elems).filter (fun i => run'.state i = old) =
      ((Finset.range elems).filter fun i => run.state i = old).erase j := by
    ext i
    simp only [Finset.mem_filter, Finset.mem_erase, stores i]
    by_cases same : i = j
    · simp [same, different]
    · simp [same]
  rw [erased]
  apply Finset.card_erase_of_mem
  exact Finset.mem_filter.mpr ⟨Finset.mem_range.mpr inside, before⟩

/-- A region enters its new state. -/
theorem count_new (stores : ∀ i, run'.state i = if i = j then new else run.state i)
    (inside : j < elems) (before : run.state j ≠ new) :
    run'.count elems new = run.count elems new + 1 := by
  unfold count
  have added : (Finset.range elems).filter (fun i => run'.state i = new) =
      insert j ((Finset.range elems).filter fun i => run.state i = new) := by
    ext i
    simp only [Finset.mem_filter, Finset.mem_insert, stores i, Finset.mem_range]
    by_cases same : i = j
    · simp [same, inside]
    · simp [same]
  rw [added]
  apply Finset.card_insert_of_notMem
  intro member
  exact before (Finset.mem_filter.mp member).2

/-- The other states keep their regions. -/
theorem count_other (stores : ∀ i, run'.state i = if i = j then new else run.state i)
    (before : run.state j ≠ s) (after : new ≠ s) : run'.count elems s = run.count elems s := by
  unfold count
  congr 1
  apply Finset.filter_congr
  intro i _
  rw [stores i]
  by_cases same : i = j
  · simp [same, before, after]
  · simp [same]

end Store

theorem ahead_lt (some : 1 ≤ elems) (k : Nat) : run.ahead elems k < elems := Nat.mod_lt _ some

/-- Fewer steps than there are regions lead to different regions. -/
theorem ahead_ne (coprime : Nat.Coprime run.gen elems) {j k : Nat} (less : j < k)
    (few : k - j < elems) : run.ahead elems j ≠ run.ahead elems k := by
  intro same
  have congruent : run.currentIdx + j * run.gen ≡ run.currentIdx + k * run.gen [MOD elems] := same
  have steps : j * run.gen ≡ k * run.gen [MOD elems] := Nat.ModEq.add_left_cancel' _ congruent
  have counts : j ≡ k [MOD elems] :=
    Nat.ModEq.cancel_right_of_coprime (Nat.Coprime.symm coprime) steps
  have divides : elems ∣ k - j := (Nat.modEq_iff_dvd' less.le).mp counts
  have large := Nat.le_of_dvd (by omega) divides
  omega

end Run

section Operations

variable {run : Run} {bin : Bin} {elems : Nat}

theorem runInit_state {rand : Nat → Nat} {heap i : Nat} (inside : i < bin.elems)
    (few : bin.elems ≤ 1024) (bits : bin.regMaskSizeBits = 2 * bin.elems) :
    (runInit rand run bin heap).state i = .free := by
  have cleared : i / 4 < bits2bytesCeil bin.regMaskSizeBits := by
    unfold bits2bytesCeil clearLow u32
    omega
  unfold Run.state getBitmapItem getCrumb runInit
  simp only [if_pos cleared]
  simp [BState.ofByte]

/-- A fresh run has all its regions free. -/
theorem runInit_inv (run : Run) {b : Nat} (isClass : b < 43) (size : bin.regSize = classSize b)
    (count : bin.elems = classElems b) (bits : bin.regMaskSizeBits = 2 * bin.elems)
    (rand : Nat → Nat) (heap : Nat) :
    (runInit rand run bin heap).Inv bin.elems ∧
      (runInit rand run bin heap).navail = bin.elems ∧
      ∀ i < bin.elems, (runInit rand run bin heap).state i = .free := by
  obtain ⟨-, -, -, some, few, -, -⟩ := classSize_facts b isClass
  obtain ⟨unit, word⟩ := pickGenerator_unit isClass (rand 0)
  rw [← count] at some few unit
  have free : ∀ i < bin.elems, (runInit rand run bin heap).state i = .free := fun i inside =>
    runInit_state inside few bits
  have total : (runInit rand run bin heap).navail = bin.elems := u16_eq (by omega)
  have gen : (runInit rand run bin heap).gen = pickGenerator (classSize b) (rand 0) := by
    rw [← size]
    apply u16_eq
    rw [size]
    exact word
  have start : (runInit rand run bin heap).currentIdx =
      rand (generatorDraws bin.regSize) % bin.elems := by
    apply u16_eq
    have := Nat.mod_lt (rand (generatorDraws bin.regSize)) some
    omega
  have full : (runInit rand run bin heap).count bin.elems .free = bin.elems := by
    unfold Run.count
    rw [Finset.filter_true_of_mem fun i member => free i (Finset.mem_range.mp member),
      Finset.card_range]
  have apart : (runInit rand run bin heap).count bin.elems .free +
      (runInit rand run bin heap).count bin.elems .allocFree ≤ bin.elems :=
    Run.count_add_le (by decide)
  refine ⟨⟨some, few, ?_, ?_, ?_, ?_, ?_, ?_⟩, total, free⟩
  · rw [gen]
    exact unit
  · rw [start]
    exact Nat.mod_lt _ some
  · rw [total, full]
  · have none : (runInit rand run bin heap).nfreed = 0 := rfl
    omega
  · intro k _ _
    exact free _ (Run.ahead_lt some k)
  · intro i inside
    rw [free i inside]
    decide

/-- The region that `run_allocate` hands out. -/
def Run.next (run : Run) (elems : Nat) : Nat := run.ahead elems 1

theorem runAllocate_kept (run : Run) (bin : Bin) :
    (runAllocate run bin).2.gen = run.gen ∧ (runAllocate run bin).2.nfreed = run.nfreed ∧
      (runAllocate run bin).2.key = run.key := by
  have kept : ∀ idx bitmap left,
      Run.gen { run with currentIdx := idx, regBitmap := bitmap, navail := left } = run.gen ∧
      Run.nfreed { run with currentIdx := idx, regBitmap := bitmap, navail := left } =
        run.nfreed ∧
      Run.key { run with currentIdx := idx, regBitmap := bitmap, navail := left } = run.key :=
    fun _ _ _ => ⟨rfl, rfl, rfl⟩
  exact kept _ _ _

/-- `run_allocate` hands out a free region, and the walk goes on from it. -/
theorem runAllocate_inv (inv : run.Inv bin.elems) (avail : 0 < run.navail) :
    run.next bin.elems < bin.elems ∧ run.state (run.next bin.elems) = .free ∧
      (runAllocate run bin).2.Inv bin.elems ∧
      (runAllocate run bin).2.navail = run.navail - 1 ∧
      (runAllocate run bin).2.nfreed = run.nfreed ∧
      (runAllocate run bin).2.key = run.key ∧
      (∀ i, (runAllocate run bin).2.state i =
        if i = run.next bin.elems then .alloc else run.state i) ∧
      (runAllocate run bin).1 =
        u64 (run.key + u32 (run.next bin.elems * bin.regSize)) := by
  obtain ⟨gen, nfreed, key⟩ := runAllocate_kept run bin
  have few := inv.few
  have inside : run.next bin.elems < bin.elems := Run.ahead_lt inv.some 1
  have free : run.state (run.next bin.elems) = .free := inv.walk 1 (Nat.le_refl 1) avail
  have counted := inv.navail
  have total := Run.count_le run bin.elems .free
  have idx : u16 ((run.gen + run.currentIdx) % bin.elems) = run.next bin.elems := by
    have same : (run.gen + run.currentIdx) % bin.elems = run.next bin.elems := by
      unfold Run.next Run.ahead
      rw [Nat.one_mul, Nat.add_comm]
    rw [same]
    apply u16_eq
    omega
  have left : (runAllocate run bin).2.navail = run.navail - 1 := by
    unfold runAllocate u16
    simp only
    omega
  have stores : ∀ i, (runAllocate run bin).2.state i =
      if i = run.next bin.elems then .alloc else run.state i := by
    intro i
    unfold Run.state runAllocate
    simp only [idx]
    exact getBitmapItem_set _ _ _ _
  have moved : ∀ k, (runAllocate run bin).2.ahead bin.elems k = run.ahead bin.elems (k + 1) := by
    intro k
    have current : (runAllocate run bin).2.currentIdx = run.next bin.elems := idx
    unfold Run.ahead
    rw [current, gen]
    unfold Run.next Run.ahead
    rw [Nat.mod_add_mod, Nat.add_assoc, ← Nat.add_mul, Nat.add_comm 1 k]
  have coprime : Nat.Coprime (runAllocate run bin).2.gen bin.elems := by
    rw [gen]
    exact inv.gen
  refine ⟨inside, free, ⟨inv.some, few, coprime, ?_, ?_, ?_, ?_, ?_⟩, left, nfreed, key, stores,
    ?_⟩
  · exact idx.trans_lt inside
  · rw [left, counted]
    exact (Run.count_old stores inside free (by decide)).symm
  · rw [nfreed, inv.nfreed]
    apply Eq.symm
    apply Run.count_other stores
    · rw [free]
      decide
    · decide
  · intro k first last
    rw [left] at last
    have apart : run.next bin.elems ≠ run.ahead bin.elems (k + 1) :=
      Run.ahead_ne inv.gen (by omega) (by omega)
    rw [moved k, stores, if_neg (Ne.symm apart)]
    exact inv.walk (k + 1) (by omega) (by omega)
  · intro i inside'
    rw [stores i]
    split
    · decide
    · exact inv.valid i inside'
  · unfold runAllocate
    rw [idx]

/-- Marking an allocated region freed. -/
theorem runMarkFreed_inv {idx : Nat} (inv : run.Inv elems) (inside : idx < elems)
    (alloc : run.state idx = .alloc) :
    (runMarkFreed run idx).Inv elems ∧ (runMarkFreed run idx).nfreed = run.nfreed + 1 ∧
      (runMarkFreed run idx).navail = run.navail ∧ (runMarkFreed run idx).key = run.key ∧
      ∀ i, (runMarkFreed run idx).state i =
        if i = idx then .allocFree else run.state i := by
  have few := inv.few
  have stores : ∀ i, (runMarkFreed run idx).state i =
      if i = idx then .allocFree else run.state i := by
    intro i
    exact getBitmapItem_set _ _ _ _
  have notFreed : run.state idx ≠ .allocFree := by
    rw [alloc]
    decide
  have notFree : run.state idx ≠ .free := by
    rw [alloc]
    decide
  have counted : (runMarkFreed run idx).count elems .allocFree = run.count elems .allocFree + 1 :=
    Run.count_new stores inside notFreed
  have bound := Run.count_le (runMarkFreed run idx) elems .allocFree
  have before := inv.nfreed
  have one_more : (runMarkFreed run idx).nfreed = run.nfreed + 1 := u16_eq (by omega)
  refine ⟨⟨inv.some, few, inv.gen, inv.current, ?_, ?_, ?_, ?_⟩, one_more, rfl, rfl, stores⟩
  · have same : (runMarkFreed run idx).navail = run.navail := rfl
    rw [same, inv.navail]
    exact (Run.count_other stores notFree (by decide)).symm
  · rw [one_more, counted, before]
  · intro k first last
    have free := inv.walk k first last
    have apart : run.ahead elems k ≠ idx := by
      intro same
      rw [same] at free
      exact notFree free
    have ahead : (runMarkFreed run idx).ahead elems k = run.ahead elems k := rfl
    rw [ahead, stores, if_neg apart]
    exact free
  · intro i inside'
    rw [stores i]
    split
    · decide
    · exact inv.valid i inside'

/-- `run_validate_ptr` of the first byte of region `i` looks at the state of that region. -/
theorem runValidatePtr_region {i : Nat} (size : 0 < bin.regSize) :
    runValidatePtr run bin (run.key + i * bin.regSize) =
      if run.state i = .alloc then some i else none := by
  unfold runValidatePtr
  simp only [Nat.add_sub_cancel_left, Nat.mul_mod_left, Nat.mul_div_cancel i size]
  unfold Run.state
  by_cases alloc : getBitmapItem run.regBitmap i = .alloc
  · simp [alloc]
  · simp [alloc]

end Operations

end Sealloc
