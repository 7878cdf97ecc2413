import Mathlib.Tactic

/-! Constants and arithmetic of `utils.h` and `utils.c`.

Addresses and sizes are natural numbers; where the source computes in a machine
word and may leave its range, the reduction is written out. -/

namespace Sealloc

def pageSize : Nat := 4096
def maxUserspaceAddr64 : Nat := 0x7fffffffffff
def mask44Bits : Nat := 0x0fffffffffff
def mask45Bits : Nat := 0x1fffffffffff
def sizeMax : Nat := 2 ^ 64 - 1

/-- A value stored in an `unsigned short`. -/
def u16 (n : Nat) : Nat := n % 2 ^ 16

/-- A value stored in an `unsigned` or `uint32_t`. -/
def u32 (n : Nat) : Nat := n % 2 ^ 32

/-- A value stored in a `size_t` or `uintptr_t`. -/
def u64 (n : Nat) : Nat := n % 2 ^ 64

/-- Subtraction of `size_t` or `uintptr_t` values. -/
def sub64 (a b : Nat) : Nat := (a + (2 ^ 64 - b % 2 ^ 64)) % 2 ^ 64

/-- `n & ~(a - 1)` for a power of two `a`. -/
def clearLow (a n : Nat) : Nat := n - n % a

/-- `ALIGNUP_PAGE` of a `size_t` or `uintptr_t`. -/
def alignupPage (n : Nat) : Nat := clearLow pageSize (u64 (n + (pageSize - 1)))

/-- `ALIGNUP_PAGE` of an `uint32_t`. -/
def alignupPage32 (n : Nat) : Nat := clearLow pageSize (u32 (n + (pageSize - 1)))

/-- `BITS2BYTES_CEIL` of an `unsigned`. -/
def bits2bytesCeil (bits : Nat) : Nat := clearLow 8 (u32 (bits + 7)) / 8

def ctzLoop : Nat → Nat → Nat → Nat
  | 0, _, cnt => cnt
  | rounds + 1, x, cnt => if x > 1 then ctzLoop rounds (x / 2) (cnt + 1) else cnt

/-- `ctz` of an `unsigned`: its loop shifts at most 32 times. -/
def ctz (x : Nat) : Nat := ctzLoop 32 x 0

theorem sub64_eq {a b : Nat} (below : b ≤ a) (word : a < 2 ^ 64) : sub64 a b = a - b := by
  unfold sub64
  omega

theorem u64_eq {n : Nat} (word : n < 2 ^ 64) : u64 n = n := Nat.mod_eq_of_lt word

theorem u16_eq {n : Nat} (word : n < 2 ^ 16) : u16 n = n := Nat.mod_eq_of_lt word

/-- A size that leaves room for the rounding is rounded up to whole pages. -/
theorem alignupPage_spec {n : Nat} (room : n ≤ sizeMax - 4095) :
    n ≤ alignupPage n ∧ alignupPage n < n + 4096 ∧ alignupPage n % 4096 = 0 := by
  unfold alignupPage clearLow u64 pageSize
  unfold sizeMax at room
  omega

theorem alignupPage_aligned (n : Nat) : alignupPage n % 4096 = 0 := by
  unfold alignupPage clearLow pageSize
  omega

theorem alignupPage_lt (n : Nat) : alignupPage n < 2 ^ 64 := by
  unfold alignupPage clearLow u64 pageSize
  omega

end Sealloc
