import Sealloc.Utils
import Sealloc.Library.Crumbs
import Sealloc.Library.Numerals
import Mathlib.Data.List.GetD

/-! The strings of `utils.c`: their length, and the number that a seed is given as. -/

namespace Sealloc

open Library

/-- A C string: its bytes up to the NUL. -/
structure CString where
  bytes : List Byte
  noNul : ∀ c ∈ bytes, c ≠ 0#8

def ascii (c : Char) : Byte := BitVec.ofNat 8 c.toNat

/-- A text none of whose characters is NUL. -/
theorem noNul_ascii {text : List Char} (plain : text.all (ascii · ≠ 0#8) = true) :
    ∀ c ∈ text.map ascii, c ≠ 0#8 := by
  intro c member
  rcases List.mem_map.mp member with ⟨letter, inside, rfl⟩
  exact of_decide_eq_true (List.all_eq_true.mp plain letter inside)

def msgLenLoop : List Byte → Nat → Nat
  | [], cnt => cnt
  | _ :: rest, cnt => msgLenLoop rest (u32 (cnt + 1))

/-- `msg_len`; its counter is an `unsigned`. -/
def msgLen (msg : CString) : Nat := msgLenLoop msg.bytes 0

/-- A `char` as an `int`; whether it has a sign is the platform's choice. -/
def charValue (signed : Bool) (c : Byte) : Int := if signed then c.toInt else c.toNat

/-- An `int` in an expression with an `uint32_t`. -/
def intToU32 (n : Int) : Nat := (n % 2 ^ 32).toNat

def str2u32Loop (signed : Bool) (str : CString) : Nat → Nat → Nat → Nat
  | 0, res, _ => res
  | idx + 1, res, base =>
      let digit := intToU32 (charValue signed (str.bytes.getD idx 0#8) - charValue signed (ascii '0'))
      str2u32Loop signed str idx (u32 (res + u32 (digit * base))) (u32 (base * 10))

def str2u32 (signed : Bool) (str : CString) : Nat := str2u32Loop signed str (msgLen str) 0 1

section Reading

variable {signed : Bool}

theorem msgLenLoop_eq (msg : List Byte) : ∀ cnt, msgLenLoop msg cnt = u32 (cnt + msg.length) ∨
    msg = [] ∧ msgLenLoop msg cnt = cnt := by
  induction msg with
  | nil => exact fun cnt => Or.inr ⟨rfl, rfl⟩
  | cons c rest ih =>
      intro cnt
      left
      rw [msgLenLoop, List.length_cons]
      rcases ih (u32 (cnt + 1)) with counted | ⟨rfl, counted⟩
      · rw [counted]
        unfold u32
        omega
      · rw [counted]
        rfl

/-- A string that is shorter than 4 GiB is measured right. -/
theorem msgLen_eq {msg : CString} (short : msg.bytes.length < 2 ^ 32) :
    msgLen msg = msg.bytes.length := by
  unfold msgLen
  rcases msgLenLoop_eq msg.bytes 0 with counted | ⟨none, counted⟩
  · rw [counted, Nat.zero_add]
    exact Nat.mod_eq_of_lt short
  · rw [counted, none]
    rfl

/-- What one byte adds to the number in front of it. -/
def digitValue (signed : Bool) (c : Byte) : Int := charValue signed c - charValue signed (ascii '0')

/-- The number that a string stands for, with bytes other than digits counted as they come. -/
def decimalValue (signed : Bool) (bytes : List Byte) : Int :=
  readNumeral 10 (digitValue signed) bytes

theorem intToU32_modEq (n : Int) : (intToU32 n : Int) ≡ n [ZMOD 2 ^ 32] := by
  unfold intToU32
  rw [Int.toNat_of_nonneg (Int.emod_nonneg n (by norm_num))]
  exact Int.mod_modEq n _

theorem u32_modEq (n : Nat) : (u32 n : Int) ≡ n [ZMOD 2 ^ 32] := by
  unfold u32
  rw [Int.natCast_mod]
  exact Int.mod_modEq n _

/-- The loop goes from the last digit to the first one: what it has is the number of the digits
behind, and what is in front of them counts `base` times. -/
theorem str2u32Loop_modEq (str : CString) : ∀ idx res base, idx ≤ str.bytes.length →
    (str2u32Loop signed str idx res base : Int) ≡
      res + base * decimalValue signed (str.bytes.take idx) [ZMOD 2 ^ 32] := by
  intro idx
  induction idx with
  | zero =>
      intro res base _
      rw [str2u32Loop, List.take_zero]
      unfold decimalValue readNumeral
      simp only [List.foldl_nil, Int.mul_zero, Int.add_zero]
      exact Int.ModEq.refl _
  | succ idx ih =>
      intro res base inside
      rw [str2u32Loop]
      refine (ih _ _ (Nat.le_of_succ_le inside)).trans ?_
      have last : str.bytes.take (idx + 1) =
          str.bytes.take idx ++ [str.bytes.getD idx 0#8] := by
        rw [List.getD_eq_getElem _ _ inside, List.take_append_getElem inside]
      unfold decimalValue
      rw [last, readNumeral_snoc]
      generalize readNumeral 10 (digitValue signed) (str.bytes.take idx) = front
      have digit : (u32 (intToU32 (charValue signed (str.bytes.getD idx 0#8) -
          charValue signed (ascii '0')) * base) : Int) ≡
            digitValue signed (str.bytes.getD idx 0#8) * base [ZMOD 2 ^ 32] := by
        refine (u32_modEq _).trans ?_
        push_cast
        exact (intToU32_modEq _).mul_right _
      have sum : (u32 (res + u32 (intToU32 (charValue signed (str.bytes.getD idx 0#8) -
          charValue signed (ascii '0')) * base)) : Int) ≡
            res + digitValue signed (str.bytes.getD idx 0#8) * base [ZMOD 2 ^ 32] := by
        refine (u32_modEq _).trans ?_
        push_cast
        exact digit.add_left _
      have next : (u32 (base * 10) : Int) ≡ base * 10 [ZMOD 2 ^ 32] := by
        refine (u32_modEq _).trans ?_
        push_cast
        exact Int.ModEq.refl _
      calc
        _ ≡ res + digitValue signed (str.bytes.getD idx 0#8) * base + base * 10 * front
            [ZMOD 2 ^ 32] := sum.add (next.mul_right front)
        _ = res + base * (front * 10 + digitValue signed (str.bytes.getD idx 0#8)) := by ring

theorem str2u32Loop_lt (str : CString) : ∀ idx res base, res < 2 ^ 32 →
    str2u32Loop signed str idx res base < 2 ^ 32 := by
  intro idx
  induction idx with
  | zero => exact fun res base word => word
  | succ idx ih =>
      intro res base _
      exact ih _ _ (Nat.mod_lt _ (by norm_num))

theorem str2u32_modEq {str : CString} (short : str.bytes.length < 2 ^ 32) :
    (str2u32 signed str : Int) ≡ decimalValue signed str.bytes [ZMOD 2 ^ 32] := by
  have residue := @str2u32Loop_modEq signed str (msgLen str) 0 1 (msgLen_eq short).le
  unfold str2u32
  rw [msgLen_eq short] at residue ⊢
  rw [List.take_length] at residue
  have simplified : ((0 : Nat) : Int) + ((1 : Nat) : Int) * decimalValue signed str.bytes =
      decimalValue signed str.bytes := by push_cast; ring
  rw [simplified] at residue
  exact residue

theorem str2u32_lt (str : CString) : str2u32 signed str < 2 ^ 32 :=
  str2u32Loop_lt str _ 0 1 (by norm_num)

/-- `str2u32` of any string that is shorter than 4 GiB: the number that it stands for, in 32
bits. -/
theorem str2u32_value (signed : Bool) (str : CString) (short : str.bytes.length < 2 ^ 32) :
    (str2u32 signed str : Int) = decimalValue signed str.bytes % 2 ^ 32 := by
  have below := @str2u32_lt signed str
  have residue := @str2u32_modEq signed str short
  generalize str2u32 signed str = value at below residue
  have reduced : (value : Int) % 2 ^ 32 = value :=
    Int.emod_eq_of_lt (by omega) (by exact_mod_cast below)
  rw [← reduced]
  exact residue

/-- The first number that does not fit, with a sign in front. -/
theorem str2u32_value_wraps : ∃ str : CString, str.bytes.length = 11 ∧
    (str2u32 true str : Int) = decimalValue true str.bytes % 2 ^ 32 := by
  let str : CString := ⟨['-', '4', '2', '9', '4', '9', '6', '7', '2', '9', '6'].map ascii,
    noNul_ascii (by decide)⟩
  exact ⟨str, rfl, str2u32_value true str (by decide)⟩

end Reading

end Sealloc
