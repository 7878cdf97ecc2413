import Sealloc.Library.Smear
import Sealloc.Api

/-! The rounding of `size_class.c` in 32 bits: each size gets the least class that holds it. -/

namespace Sealloc

open Library

/-- The shifts of `npow2`. -/
def smear (n : Nat) : Nat :=
  let n := n ||| n >>> 1
  let n := n ||| n >>> 2
  let n := n ||| n >>> 4
  let n := n ||| n >>> 8
  n ||| n >>> 16

theorem npow2_smear (d : Nat) : npow2 d = u32 (smear (u32 (d + (2 ^ 32 - 1))) + 1) := rfl

theorem smear_eq {n : Nat} (word : n < 2 ^ 32) : smear n = 2 ^ Nat.clog 2 (n + 1) - 1 := by
  have filled : Filled 32 n (smear n) :=
    (filled_one n).double.double.double.double.double
  exact filled.eq word

theorem clog_le {d k : Nat} (few : d ≤ 2 ^ k) : Nat.clog 2 d ≤ k :=
  (Nat.clog_le_iff_le_pow Nat.one_lt_two).mpr few

theorem smear_pred {d : Nat} (some : 1 ≤ d) (few : d ≤ 2 ^ 31) :
    smear (d - 1) + 1 = 2 ^ Nat.clog 2 d := by
  have positive : 0 < 2 ^ Nat.clog 2 d := Nat.two_pow_pos _
  rw [smear_eq (by omega), Nat.sub_add_cancel some]
  omega

/-- `npow2` of a positive word up to `2^31` is the least power of two that reaches it. -/
theorem npow2_eq {d : Nat} (some : 1 ≤ d) (few : d ≤ 2 ^ 31) : npow2 d = 2 ^ Nat.clog 2 d := by
  have predecessor : u32 (d + (2 ^ 32 - 1)) = d - 1 := by
    unfold u32
    omega
  have power : 2 ^ Nat.clog 2 d ≤ 2 ^ 31 := Nat.pow_le_pow_right Nat.two_pos (clog_le few)
  rw [npow2_smear, predecessor, smear_pred some few]
  exact Nat.mod_eq_of_lt (lt_of_le_of_lt power (by norm_num))

/-- `alignup_large_size` and `alignup_medium_size`, which differ in the unit. -/
def alignupUnit (unit n : Nat) : Nat := u32 (npow2 (ceilDiv (u32 n) unit) * unit)

/-- No operation of `alignupUnit` on `n` leaves the 32-bit words: the decrement does not go
below zero, and the results before any reduction are words. -/
structure NoOverflow (unit n : Nat) : Prop where
  argument : n < 2 ^ 32
  quotient : ceilDiv n unit < 2 ^ 32
  decrement : 1 ≤ ceilDiv n unit
  increment : smear (ceilDiv n unit - 1) + 1 < 2 ^ 32
  product : (smear (ceilDiv n unit - 1) + 1) * unit < 2 ^ 32

theorem ceilDiv_le_pow {unit n k : Nat} (positive : 0 < unit) :
    ceilDiv n unit ≤ 2 ^ k ↔ n ≤ unit * 2 ^ k := by
  rcases ceilDiv_spec (a := n) positive with ⟨covers, -, least⟩
  constructor
  · intro few
    calc
      n ≤ ceilDiv n unit * unit := covers
      _ ≤ 2 ^ k * unit := Nat.mul_le_mul_right unit few
      _ = unit * 2 ^ k := Nat.mul_comm _ _
  · intro enough
    apply least
    rw [Nat.mul_comm]
    exact enough

section Unit

variable {j n : Nat}

/-- The exponent that a size is rounded to, in units of `2^j`. -/
def classExponent (j n : Nat) : Nat := Nat.clog 2 (ceilDiv n (2 ^ j))

theorem classExponent_le {k : Nat} : classExponent j n ≤ k ↔ n ≤ 2 ^ j * 2 ^ k := by
  unfold classExponent
  rw [Nat.clog_le_iff_le_pow Nat.one_lt_two]
  exact ceilDiv_le_pow (Nat.two_pow_pos j)

theorem classExponent_bound (unitFits : j ≤ 31) (word : n ≤ 2 ^ 31) :
    classExponent j n ≤ 31 - j := by
  rw [classExponent_le, ← pow_add, Nat.add_sub_cancel' unitFits]
  exact word

theorem ceilDiv_bounds (some : 1 ≤ n) (word : n ≤ 2 ^ 31) :
    1 ≤ ceilDiv n (2 ^ j) ∧ ceilDiv n (2 ^ j) ≤ 2 ^ 31 := by
  rcases ceilDiv_spec (a := n) (Nat.two_pow_pos j) with ⟨-, positive, least⟩
  refine ⟨positive some, least _ ?_⟩
  calc
    n ≤ 2 ^ 31 := word
    _ ≤ 2 ^ 31 * 2 ^ j := Nat.le_mul_of_pos_right _ (Nat.two_pow_pos j)

theorem class_le_word (unitFits : j ≤ 31) (word : n ≤ 2 ^ 31) :
    2 ^ classExponent j n * 2 ^ j ≤ 2 ^ 31 := by
  have bound := classExponent_bound unitFits word
  calc
    _ = 2 ^ (classExponent j n + j) := (pow_add 2 _ _).symm
    _ ≤ 2 ^ 31 := Nat.pow_le_pow_right Nat.two_pos (by omega)

theorem alignupUnit_noOverflow (unitFits : j ≤ 31) (some : 1 ≤ n) (word : n ≤ 2 ^ 31) :
    NoOverflow (2 ^ j) n := by
  rcases ceilDiv_bounds (j := j) some word with ⟨positive, few⟩
  have filled := smear_pred positive few
  have small := class_le_word unitFits word
  have units : 1 ≤ 2 ^ j := Nat.two_pow_pos j
  have power : 2 ^ classExponent j n ≤ 2 ^ classExponent j n * 2 ^ j :=
    Nat.le_mul_of_pos_right _ units
  refine ⟨by omega, by omega, positive, ?_, ?_⟩
  · rw [filled]
    exact lt_of_le_of_lt (power.trans small) (by norm_num)
  · rw [filled]
    exact lt_of_le_of_lt small (by norm_num)

theorem alignupUnit_eq (unitFits : j ≤ 31) (some : 1 ≤ n) (word : n ≤ 2 ^ 31) :
    alignupUnit (2 ^ j) n = 2 ^ j * 2 ^ classExponent j n := by
  rcases ceilDiv_bounds (j := j) some word with ⟨positive, few⟩
  have small := class_le_word unitFits word
  have argument : u32 n = n := Nat.mod_eq_of_lt (by omega)
  unfold alignupUnit
  rw [argument, npow2_eq positive few, Nat.mul_comm (2 ^ j)]
  exact Nat.mod_eq_of_lt (lt_of_le_of_lt small (by norm_num))

theorem alignupUnit_le (unitFits : j ≤ 31) (some : 1 ≤ n) (word : n ≤ 2 ^ 31) :
    alignupUnit (2 ^ j) n ≤ 2 ^ 31 := by
  rw [alignupUnit_eq unitFits some word, Nat.mul_comm]
  exact class_le_word unitFits word

theorem alignupUnit_least (unitFits : j ≤ 31) (some : 1 ≤ n) (word : n ≤ 2 ^ 31) :
    IsLeast {m | n ≤ m ∧ ∃ k, m = 2 ^ j * 2 ^ k} (alignupUnit (2 ^ j) n) := by
  rw [alignupUnit_eq unitFits some word]
  constructor
  · exact ⟨classExponent_le.mp le_rfl, _, rfl⟩
  · rintro m ⟨enough, k, rfl⟩
    apply Nat.mul_le_mul_left
    exact Nat.pow_le_pow_right Nat.two_pos (classExponent_le.mpr enough)

theorem alignupUnit_monotone (unitFits : j ≤ 31) {m : Nat} (some : 1 ≤ n) (le : n ≤ m)
    (word : m ≤ 2 ^ 31) : alignupUnit (2 ^ j) n ≤ alignupUnit (2 ^ j) m := by
  have smaller := alignupUnit_least unitFits some (le.trans word)
  rcases (alignupUnit_least unitFits (some.trans le) word).1 with ⟨enough, multiple⟩
  exact smaller.2 ⟨le.trans enough, multiple⟩

theorem alignupUnit_idempotent (unitFits : j ≤ 31) (some : 1 ≤ n) (word : n ≤ 2 ^ 31) :
    alignupUnit (2 ^ j) (alignupUnit (2 ^ j) n) = alignupUnit (2 ^ j) n := by
  rcases (alignupUnit_least unitFits some word).1 with ⟨enough, multiple⟩
  have again := alignupUnit_least unitFits (some.trans enough)
    (alignupUnit_le unitFits some word)
  exact le_antisymm (again.2 ⟨le_rfl, multiple⟩) again.1.1

end Unit

/-- `is_size_aligned`, whose small rounding is done in 32 bits. -/
def isSizeAligned (size : Nat) : Bool :=
  if isSizeSmall size then
    clearLow smallSizeClassAlignment (u32 (size + (smallSizeClassAlignment - 1))) = size
  else if isSizeMedium size then alignupMediumSize size = size
  else alignupLargeSize size = size

/-- The sizes that `size_class.h` lists. -/
def sizeClasses : Set Nat := {c | ∃ b < arenaNoBins, classSize b = c}

/-- What `sealloc_malloc` does with the bin of the class it has chosen. -/
def mallocFromBin (env : Env) (fuel b : Nat) : Prog World (Option Nat) := do
  let w ← Prog.get
  if (w.arena.bins b).availRegs = 0 then
    arenaSupplyRuns env fuel b
  let ptr ← seallocAllocateWithBin env fuel b
  return some ptr

theorem classSize_lt {a b : Nat} (less : a < b) (valid : b < 43) : classSize a < classSize b := by
  have table : ∀ b < 43, ∀ a < b, classSize a < classSize b := by decide +kernel
  exact table b valid a less

theorem alignupLargeSize_unit (n : Nat) : alignupLargeSize n = alignupUnit (2 ^ 14) n := rfl

theorem alignupMediumSize_unit (n : Nat) : alignupMediumSize n = alignupUnit (2 ^ 10) n := rfl

theorem classSize_families : ∀ b < 43,
    (512 < classSize b → classSize b = 2 ^ 10 * 2 ^ (b - 32)) ∧
    (8192 < classSize b → classSize b = 2 ^ 14 * 2 ^ (b - 36)) := by
  decide +kernel

theorem isSizeSmall_or {size : Nat} (some : 1 ≤ size) : isSizeSmall size ∨ 512 < size := by
  by_cases small : isSizeSmall size
  · exact Or.inl small
  · refine Or.inr (not_le.mp fun below => small ⟨some, below⟩)

/-- No class that holds the size is smaller than the one it is rounded to. -/
theorem alignupSize_le {size b : Nat} (some : 1 ≤ size) (small : size ≤ largeSizeMaxRegion)
    (valid : b < 43) (holds : size ≤ classSize b) : alignupSize size ≤ classSize b := by
  have word : size ≤ 2 ^ 31 := small.trans (by norm_num [largeSizeMaxRegion])
  rcases classSize_families b valid with ⟨medium, large⟩
  unfold alignupSize
  by_cases isSmall : isSizeSmall size
  · have upper : size ≤ 512 := isSmall.2
    have multiple := (classSize_facts b valid).2.1
    rw [if_pos isSmall]
    unfold alignupSmallSize clearLow smallSizeClassAlignment
    rw [u64_eq (by omega)]
    omega
  · have above : 512 < size := (isSizeSmall_or some).resolve_left isSmall
    rw [if_neg isSmall]
    by_cases isMedium : isSizeMedium size
    · rw [if_pos isMedium, alignupMediumSize_unit]
      apply (alignupUnit_least (by norm_num) some word).2
      exact ⟨holds, _, medium (lt_of_lt_of_le above holds)⟩
    · have higher : 8192 < size := not_le.mp fun below => isMedium ⟨above, below⟩
      rw [if_neg isMedium, alignupLargeSize_unit]
      apply (alignupUnit_least (by norm_num) some word).2
      exact ⟨holds, _, large (lt_of_lt_of_le higher holds)⟩

/-- `sealloc_malloc` and `sealloc_realloc` round a size to the least class that holds it. -/
theorem alignupSize_least {size : Nat} (some : 1 ≤ size) (small : size ≤ largeSizeMaxRegion) :
    IsLeast {c | c ∈ sizeClasses ∧ size ≤ c} (alignupSize size) := by
  constructor
  · rcases alignupSize_class some small with ⟨b, valid, class_, holds⟩
    rw [class_]
    exact ⟨⟨b, valid, rfl⟩, holds⟩
  · rintro c ⟨⟨b, valid, rfl⟩, holds⟩
    exact alignupSize_le some small valid holds

theorem isSizeAligned_eq {size : Nat} (some : 1 ≤ size) (small : size ≤ largeSizeMaxRegion) :
    isSizeAligned size = decide (alignupSize size = size) := by
  unfold largeSizeMaxRegion at small
  have roundings : clearLow smallSizeClassAlignment (u32 (size + (smallSizeClassAlignment - 1))) =
      alignupSmallSize size := by
    unfold alignupSmallSize clearLow u32 u64 smallSizeClassAlignment
    omega
  unfold isSizeAligned alignupSize
  rw [roundings]
  split_ifs <;> rfl

/-- `is_size_aligned` accepts the classes. -/
theorem isSizeAligned_iff {size : Nat} (some : 1 ≤ size) (small : size ≤ largeSizeMaxRegion) :
    isSizeAligned size = true ↔ size ∈ sizeClasses := by
  have least := alignupSize_least some small
  rw [isSizeAligned_eq some small, decide_eq_true_iff]
  constructor
  · intro same
    rw [← same]
    exact least.1.1
  · intro class_
    exact le_antisymm (least.2 ⟨class_, le_rfl⟩) least.1.2

theorem binIndex_mapsTo {c : Nat} (class_ : c ∈ sizeClasses) :
    binIndex c < 43 ∧ classSize (binIndex c) = c := by
  rcases class_ with ⟨b, valid, rfl⟩
  rw [binIndex_classSize b valid]
  exact ⟨valid, rfl⟩

theorem binIndex_strictMono : StrictMonoOn binIndex sizeClasses := by
  rintro _ ⟨a, validA, rfl⟩ _ ⟨b, validB, rfl⟩ less
  rw [binIndex_classSize a validA, binIndex_classSize b validB]
  by_contra notLess
  rcases Nat.lt_or_ge b a with above | notAbove
  · have more := classSize_lt above validA
    omega
  · rw [Nat.le_antisymm notAbove (not_lt.mp notLess)] at less
    exact lt_irrefl _ less

theorem binIndex_bijOn : Set.BijOn binIndex sizeClasses (Set.Iio 43) := by
  refine ⟨fun c class_ => (binIndex_mapsTo class_).1, binIndex_strictMono.injOn, ?_⟩
  intro b valid
  exact ⟨classSize b, ⟨b, valid, rfl⟩, binIndex_classSize b valid⟩

theorem arenaGetBinByRegSize_index {c : Nat} (class_ : c ∈ sizeClasses) (w : World) :
    ∃ w', arenaGetBinByRegSize c w = .ok (binIndex c) w' := by
  have positive : c ≠ 0 := by
    rcases class_ with ⟨b, valid, rfl⟩
    have facts := (classSize_facts b valid).1
    omega
  unfold arenaGetBinByRegSize
  by_cases fresh : (w.arena.bins (binIndex c)).regSize = 0
  · refine ⟨w.setBin (binIndex c) (Bin.init c), ?_⟩
    simp only [bind, Prog.bind, Prog.get, if_pos fresh, binInit, if_neg positive]
    rfl
  · refine ⟨w, ?_⟩
    simp only [bind, Prog.bind, Prog.get, if_neg fresh]
    rfl

theorem mallocFromBin_eq (env : Env) (fuel : Nat) {size : Nat} (some : 1 ≤ size)
    (small : size ≤ largeSizeMaxRegion) :
    seallocMalloc env fuel size =
      arenaGetBinByRegSize (alignupSize size) >>= mallocFromBin env fuel := by
  have notHuge : ¬ isSizeHuge size := not_lt.mpr small
  have nonzero : size ≠ 0 := Nat.one_le_iff_ne_zero.mp some
  unfold seallocMalloc
  simp only [if_neg nonzero, if_neg notHuge]
  unfold allocateRegular
  rw [bind_assoc]
  congr 1
  funext b
  unfold mallocFromBin
  rw [bind_assoc]
  congr 1
  funext w
  split_ifs
  · rw [bind_assoc]
  · rfl

/-- What a rounding function of `size_class.c` does with the sizes up to `2^31`. -/
structure RoundsTo (unit : Nat) (alignup : Nat → Nat) : Prop where
  least : ∀ n, 1 ≤ n → n ≤ 2 ^ 31 → IsLeast {m | n ≤ m ∧ ∃ k, m = unit * 2 ^ k} (alignup n)
  noOverflow : ∀ n, 1 ≤ n → n ≤ 2 ^ 31 → NoOverflow unit n
  monotone : ∀ m n, 1 ≤ m → m ≤ n → n ≤ 2 ^ 31 → alignup m ≤ alignup n
  idempotent : ∀ n, 1 ≤ n → n ≤ 2 ^ 31 → alignup (alignup n) = alignup n

theorem alignupUnit_roundsTo {j : Nat} (unitFits : j ≤ 31) :
    RoundsTo (2 ^ j) (alignupUnit (2 ^ j)) where
  least _ some word := alignupUnit_least unitFits some word
  noOverflow _ some word := alignupUnit_noOverflow unitFits some word
  monotone _ _ some le word := alignupUnit_monotone unitFits some le word
  idempotent _ some word := alignupUnit_idempotent unitFits some word

/-- Both rounding functions of `size_class.c` round to the least multiple of their unit by a
power of two, so that `sealloc_malloc` chooses the least class that holds a size,
`is_size_aligned` accepts the classes, and the classes are the bins in increasing order. -/
theorem size_classes :
    RoundsTo largeSizeMinRegion alignupLargeSize ∧
    RoundsTo mediumSizeMinRegion alignupMediumSize ∧
    (∀ size, 1 ≤ size → size ≤ largeSizeMaxRegion →
      (∀ env fuel, seallocMalloc env fuel size =
        arenaGetBinByRegSize (alignupSize size) >>= mallocFromBin env fuel) ∧
      IsLeast {c | c ∈ sizeClasses ∧ size ≤ c} (alignupSize size) ∧
      (isSizeAligned size = true ↔ size ∈ sizeClasses)) ∧
    (∀ c ∈ sizeClasses, ∀ w, ∃ w', arenaGetBinByRegSize c w = .ok (binIndex c) w') ∧
    Set.BijOn binIndex sizeClasses (Set.Iio 43) ∧ StrictMonoOn binIndex sizeClasses := by
  refine ⟨alignupUnit_roundsTo (by norm_num : 14 ≤ 31),
    alignupUnit_roundsTo (by norm_num : 10 ≤ 31), ?_, ?_, binIndex_bijOn, binIndex_strictMono⟩
  · intro size some small
    exact ⟨fun env fuel => mallocFromBin_eq env fuel some small, alignupSize_least some small,
      isSizeAligned_iff some small⟩
  · intro c class_ w
    exact arenaGetBinByRegSize_index class_ w

end Sealloc
