import Sealloc.Utils

/-! The 43 size classes of `size_class.c` and the rounding of a request to its class. -/

namespace Sealloc

def noSmallSizeClasses : Nat := 32
def noMediumSizeClasses : Nat := 4
def noLargeSizeClasses : Nat := 7
def smallSizeClassAlignment : Nat := 16
def smallSizeMinRegion : Nat := 16
def smallSizeMaxRegion : Nat := 512
def mediumSizeMinRegion : Nat := 1024
def mediumSizeMaxRegion : Nat := 2 * pageSize
def largeSizeMinRegion : Nat := 4 * pageSize
def largeSizeMaxRegion : Nat := 1048576

/-- `ARENA_NO_BINS`. -/
def arenaNoBins : Nat := noSmallSizeClasses + noMediumSizeClasses + noLargeSizeClasses

def isSizeSmall (size : Nat) : Prop := 1 ≤ size ∧ size ≤ smallSizeMaxRegion
def isSizeMedium (size : Nat) : Prop := smallSizeMaxRegion < size ∧ size ≤ mediumSizeMaxRegion
def isSizeHuge (size : Nat) : Prop := size > largeSizeMaxRegion

instance (size : Nat) : Decidable (isSizeSmall size) := inferInstanceAs (Decidable (_ ∧ _))
instance (size : Nat) : Decidable (isSizeMedium size) := inferInstanceAs (Decidable (_ ∧ _))
instance (size : Nat) : Decidable (isSizeHuge size) := inferInstanceAs (Decidable (_ > _))

def alignupSmallSize (n : Nat) : Nat :=
  clearLow smallSizeClassAlignment (u64 (n + (smallSizeClassAlignment - 1)))

def sizeToIdxSmall (n : Nat) : Nat := n / smallSizeClassAlignment - 1

def ceilDiv (a b : Nat) : Nat := a / b + if a % b = 0 then 0 else 1

/-- `npow2`: the shifts fill every bit below the highest one of `n - 1`. -/
def npow2 (n : Nat) : Nat :=
  let n := u32 (n + (2 ^ 32 - 1))
  let n := n ||| n >>> 1
  let n := n ||| n >>> 2
  let n := n ||| n >>> 4
  let n := n ||| n >>> 8
  let n := n ||| n >>> 16
  u32 (n + 1)

def alignupLargeSize (n : Nat) : Nat :=
  u32 (npow2 (ceilDiv (u32 n) largeSizeMinRegion) * largeSizeMinRegion)

def sizeToIdxLarge (n : Nat) : Nat := ctz (n / largeSizeMinRegion)

def alignupMediumSize (n : Nat) : Nat :=
  u32 (npow2 (ceilDiv (u32 n) mediumSizeMinRegion) * mediumSizeMinRegion)

def sizeToIdxMedium (n : Nat) : Nat := ctz (n / mediumSizeMinRegion)

/-- The rounding of a request that is not huge, in `sealloc_malloc` and `sealloc_realloc`. -/
def alignupSize (size : Nat) : Nat :=
  if isSizeSmall size then alignupSmallSize size
  else if isSizeMedium size then alignupMediumSize size
  else alignupLargeSize size

/-- The index in `arena->bins` that `arena_get_bin_by_reg_size` computes. -/
def binIndex (regSize : Nat) : Nat :=
  if isSizeSmall regSize then sizeToIdxSmall regSize
  else if isSizeMedium regSize then noSmallSizeClasses + sizeToIdxMedium regSize
  else noSmallSizeClasses + noMediumSizeClasses + sizeToIdxLarge regSize

/-- The size of the regions of class `b`. -/
def classSize (b : Nat) : Nat :=
  if b < 32 then 16 * (b + 1) else if b < 36 then 1024 * 2 ^ (b - 32) else 16384 * 2 ^ (b - 36)

/-- The bytes of a run of class `b`. -/
def classRunBytes (b : Nat) : Nat := if b < 36 then 16384 else classSize b

/-- The regions of a run of class `b`. -/
def classElems (b : Nat) : Nat := classRunBytes b / classSize b

theorem binIndex_classSize : ∀ b < 43, binIndex (classSize b) = b := by
  decide +kernel

theorem classSize_facts : ∀ b < 43, 16 ≤ classSize b ∧ classSize b % 16 = 0 ∧
    classSize b ≤ largeSizeMaxRegion ∧ 1 ≤ classElems b ∧ classElems b ≤ 1024 ∧
    classElems b * classSize b ≤ classRunBytes b ∧
    classRunBytes b = 16384 * 2 ^ (b - 36) := by
  decide +kernel

theorem classSize_medium {k : Nat} (few : k < 4) : classSize (32 + k) = 1024 * 2 ^ k := by
  rw [classSize, if_neg (by omega), if_pos (by omega), Nat.add_sub_cancel_left]

theorem classSize_large (k : Nat) : classSize (36 + k) = 16384 * 2 ^ k := by
  rw [classSize, if_neg (by omega), if_neg (by omega), Nat.add_sub_cancel_left]

theorem npow2_small : ∀ d < 65, 1 ≤ d →
    ∃ k < 7, npow2 d = 2 ^ k ∧ d ≤ 2 ^ k ∧ (d < 9 → k < 4) := by
  decide +kernel

/-- No bytes are rounded to no bytes, which is no class: the index is that of the first large one. -/
theorem alignupSize_zero : alignupSize 0 = 0 ∧ binIndex (alignupSize 0) = 36 := by decide

theorem ceilDiv_spec {a c : Nat} (positive : 0 < c) :
    a ≤ ceilDiv a c * c ∧ (1 ≤ a → 1 ≤ ceilDiv a c) ∧ ∀ k, a ≤ k * c → ceilDiv a c ≤ k := by
  have split := Nat.div_add_mod a c
  have rest := Nat.mod_lt a positive
  rw [Nat.mul_comm] at split
  unfold ceilDiv
  by_cases exact_ : a % c = 0
  · rw [if_pos exact_, Nat.add_zero]
    refine ⟨by omega, ?_, ?_⟩
    · intro some
      rw [Nat.one_le_div_iff positive]
      by_contra less
      rw [Nat.mod_eq_of_lt (by omega)] at exact_
      omega
    · intro k enough
      exact (Nat.div_le_div_right enough).trans_eq (Nat.mul_div_cancel k positive)
  · rw [if_neg exact_]
    refine ⟨?_, fun _ => Nat.le_add_left 1 _, ?_⟩
    · rw [Nat.succ_mul]
      omega
    intro k enough
    have less : a / c < k := by
      rw [Nat.div_lt_iff_lt_mul positive]
      apply lt_of_le_of_ne enough
      rintro rfl
      exact exact_ (Nat.mul_mod_left k c)
    exact less

/-- A request that is not huge is rounded up to one of the classes. -/
theorem alignupSize_class {size : Nat} (some : 1 ≤ size) (small : size ≤ largeSizeMaxRegion) :
    ∃ b < 43, alignupSize size = classSize b ∧ size ≤ classSize b := by
  unfold largeSizeMaxRegion at small
  unfold alignupSize
  by_cases isSmall : isSizeSmall size
  · have upper : size ≤ 512 := isSmall.2
    have divides := Nat.div_add_mod (size + 15) 16
    refine ⟨(size + 15) / 16 - 1, by omega, ?_⟩
    have low : (size + 15) / 16 - 1 < 32 := by omega
    rw [if_pos isSmall, classSize, if_pos low]
    unfold alignupSmallSize clearLow smallSizeClassAlignment
    rw [u64_eq (by omega)]
    omega
  · have large : 512 < size := by
      by_contra less
      exact isSmall ⟨some, by unfold smallSizeMaxRegion; omega⟩
    rw [if_neg isSmall]
    by_cases isMedium : isSizeMedium size
    · have upper : size ≤ 2 * 4096 := isMedium.2
      obtain ⟨covers, least, most⟩ := ceilDiv_spec (a := size) (c := 1024) (by norm_num)
      have most8 : ceilDiv size 1024 ≤ 8 := most 8 upper
      obtain ⟨k, -, power, bound, fewer⟩ := npow2_small _ (by omega) (least some)
      have few : k < 4 := fewer (Nat.lt_succ_of_le most8)
      have power_le : 2 ^ k ≤ 2 ^ 3 := Nat.pow_le_pow_right (by decide) (by omega)
      refine ⟨32 + k, by omega, ?_⟩
      rw [if_pos isMedium, classSize_medium few]
      unfold alignupMediumSize mediumSizeMinRegion u32
      rw [Nat.mod_eq_of_lt (show size < 2 ^ 32 by omega), power]
      omega
    · have upper : 8192 < size := by
        by_contra less
        exact isMedium ⟨large, by unfold mediumSizeMaxRegion pageSize; omega⟩
      obtain ⟨covers, least, most⟩ := ceilDiv_spec (a := size) (c := 16384) (by norm_num)
      have most64 : ceilDiv size 16384 ≤ 64 := most 64 small
      obtain ⟨k, few, power, bound, -⟩ := npow2_small _ (Nat.lt_succ_of_le most64) (least some)
      have power_le : 2 ^ k ≤ 2 ^ 6 := Nat.pow_le_pow_right (by decide) (by omega)
      refine ⟨36 + k, by omega, ?_⟩
      rw [if_neg isMedium, classSize_large k]
      unfold alignupLargeSize largeSizeMinRegion pageSize u32
      rw [Nat.mod_eq_of_lt (show size < 2 ^ 32 by omega), power]
      omega

end Sealloc
