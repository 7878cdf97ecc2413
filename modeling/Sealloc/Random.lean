import Sealloc.World

/-! The generators of `random.c`, which `arena_init` seeds with the secret of the arena. -/

namespace Sealloc

/-- The state of `splitmix32` after one more call. -/
def splitmix32Advance (state : Nat) : Nat := u32 (state + 0x9e3779b9)

/-- What a call of `splitmix32` that leaves this state returns. -/
def splitmix32Word (state : Nat) : Nat :=
  let z := u32 ((state ^^^ (state >>> 16)) * 0x21f0aaad)
  let z := u32 ((z ^^^ (z >>> 15)) * 0x735a2d97)
  z ^^^ (z >>> 15)

def splitmix64Advance (state : Nat) : Nat := u64 (state + 0x9e3779b97f4a7c15)

def splitmix64Word (state : Nat) : Nat :=
  let z := u64 ((state ^^^ (state >>> 30)) * 0xbf58476d1ce4e5b9)
  let z := u64 ((z ^^^ (z >>> 27)) * 0x94d049bb133111eb)
  z ^^^ (z >>> 31)

theorem splitmix32Word_lt (state : Nat) : splitmix32Word state < 2 ^ 32 := by
  unfold splitmix32Word
  apply Nat.xor_lt_two_pow
  · exact Nat.mod_lt _ (by norm_num)
  · rw [Nat.shiftRight_eq_div_pow]
    exact lt_of_le_of_lt (Nat.div_le_self ..) (Nat.mod_lt _ (by norm_num))

theorem splitmix64Word_lt (state : Nat) : splitmix64Word state < 2 ^ 64 := by
  unfold splitmix64Word
  apply Nat.xor_lt_two_pow
  · exact Nat.mod_lt _ (by norm_num)
  · rw [Nat.shiftRight_eq_div_pow]
    exact lt_of_le_of_lt (Nat.div_le_self ..) (Nat.mod_lt _ (by norm_num))

/-- `init_splitmix32` and `init_splitmix64` with the same seed. -/
def Env.seeded (env : Env) (seed : Nat) : Env :=
  { env with
    rand32 := fun draws => splitmix32Word (splitmix32Advance^[draws + 1] seed)
    rand64 := fun draws => splitmix64Word (splitmix64Advance^[draws + 1] seed) }

theorem seeded_rand32 (env : Env) (seed draws : Nat) : u32 ((env.seeded seed).rand32 draws) =
    splitmix32Word (splitmix32Advance^[draws + 1] seed) := by
  unfold Env.seeded
  exact Nat.mod_eq_of_lt (splitmix32Word_lt _)

theorem seeded_rand64 (env : Env) (seed draws : Nat) : u64 ((env.seeded seed).rand64 draws) =
    splitmix64Word (splitmix64Advance^[draws + 1] seed) := by
  unfold Env.seeded
  exact u64_eq (splitmix64Word_lt _)

end Sealloc
