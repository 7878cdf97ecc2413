import Mathlib.Tactic

/-! Arrays of two-bit items packed four to a byte. -/

namespace Sealloc.Library

abbrev Byte := BitVec 8

/-- A crumb has one of four values. -/
instance crumbValues : NeZero 4 := ⟨by decide⟩

def getCrumb (mem : Nat → Byte) (i : Nat) : Byte :=
  (mem (i / 4) >>> (2 * (i % 4))) &&& 3#8

def setCrumb (mem : Nat → Byte) (i : Nat) (v : Byte) : Nat → Byte :=
  Function.update mem (i / 4)
    ((mem (i / 4) &&& ~~~(3#8 <<< ((i % 4) * 2))) ||| (v <<< ((i % 4) * 2)))

/-- What two bits of a byte are after a store under a mask. -/
private theorem crumb_store (byte mask item : Byte) (shift : Nat) :
    (((byte &&& mask) ||| item) >>> shift) &&& 3#8 =
      ((byte >>> shift) &&& ((mask >>> shift) &&& 3#8)) ||| ((item >>> shift) &&& 3#8) := by
  ext i inside
  simp only [BitVec.getElem_and, BitVec.getElem_or, BitVec.getElem_ushiftRight, BitVec.getLsbD_or,
    BitVec.getLsbD_and]
  rw [Bool.and_or_distrib_right, Bool.and_assoc]

private theorem mask_same : ∀ off : Fin 4,
    (~~~(3#8 <<< (off.val * 2))) >>> (2 * off.val) &&& 3#8 = 0#8 := by decide

private theorem mask_other : ∀ off other : Fin 4, other ≠ off →
    (~~~(3#8 <<< (off.val * 2))) >>> (2 * other.val) &&& 3#8 = 3#8 := by decide

private theorem item_same : ∀ off v : Fin 4,
    (BitVec.ofNat 8 v.val <<< (off.val * 2)) >>> (2 * off.val) &&& 3#8 =
      BitVec.ofNat 8 v.val := by decide

private theorem item_other : ∀ off other v : Fin 4, other ≠ off →
    (BitVec.ofNat 8 v.val <<< (off.val * 2)) >>> (2 * other.val) &&& 3#8 = 0#8 := by decide

private theorem crumb_same (byte : Byte) (off v : Fin 4) :
    (((byte &&& ~~~(3#8 <<< (off.val * 2))) ||| (BitVec.ofNat 8 v.val <<< (off.val * 2))) >>>
      (2 * off.val)) &&& 3#8 = BitVec.ofNat 8 v.val := by
  rw [crumb_store, mask_same, item_same, BitVec.and_zero, BitVec.zero_or]

private theorem crumb_other (byte : Byte) (off other v : Fin 4) (different : other ≠ off) :
    (((byte &&& ~~~(3#8 <<< (off.val * 2))) ||| (BitVec.ofNat 8 v.val <<< (off.val * 2))) >>>
      (2 * other.val)) &&& 3#8 = (byte >>> (2 * other.val)) &&& 3#8 := by
  rw [crumb_store, mask_other off other different, item_other off other v different,
    BitVec.or_zero]

theorem getCrumb_setCrumb_same (mem : Nat → Byte) (i : Nat) (v : Fin 4) :
    getCrumb (setCrumb mem i (BitVec.ofNat 8 v.val)) i = BitVec.ofNat 8 v.val := by
  have off : i % 4 < 4 := Nat.mod_lt _ (by decide)
  simp only [getCrumb, setCrumb, Function.update_self]
  exact crumb_same (mem (i / 4)) ⟨i % 4, off⟩ v

theorem getCrumb_setCrumb_other (mem : Nat → Byte) {i j : Nat} (v : Fin 4) (different : i ≠ j) :
    getCrumb (setCrumb mem j (BitVec.ofNat 8 v.val)) i = getCrumb mem i := by
  have offI : i % 4 < 4 := Nat.mod_lt _ (by decide)
  have offJ : j % 4 < 4 := Nat.mod_lt _ (by decide)
  by_cases word : i / 4 = j / 4
  · have apart : i % 4 ≠ j % 4 := by omega
    simp only [getCrumb, setCrumb, word, Function.update_self]
    exact crumb_other (mem (j / 4)) ⟨j % 4, offJ⟩ ⟨i % 4, offI⟩ v
      (fun same => apart (congrArg Fin.val same))
  · simp only [getCrumb, setCrumb, Function.update_of_ne word]

end Sealloc.Library
