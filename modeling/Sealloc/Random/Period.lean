import Sealloc.Random
import Sealloc.World.Mapping
import Sealloc.Library.Mixer

/-! A whole period of the generators: every word is drawn once, so an index that is reduced from
a draw is as even as the number of words allows. -/

namespace Sealloc

open Library

theorem splitmix32Word_mixes : Mixes (2 ^ 32) splitmix32Word := by
  have first := (mixes_xorShift (by decide : 0 < 16)).comp
    (mixes_mul (by decide : 0x21f0aaad % 2 = 1) : Mixes (2 ^ 32) _)
  have second := (mixes_xorShift (by decide : 0 < 15)).comp
    (mixes_mul (by decide : 0x735a2d97 % 2 = 1) : Mixes (2 ^ 32) _)
  exact (first.comp second).comp (mixes_xorShift (by decide : 0 < 15))

theorem splitmix64Word_mixes : Mixes (2 ^ 64) splitmix64Word := by
  have first := (mixes_xorShift (by decide : 0 < 30)).comp
    (mixes_mul (by decide : 0xbf58476d1ce4e5b9 % 2 = 1) : Mixes (2 ^ 64) _)
  have second := (mixes_xorShift (by decide : 0 < 27)).comp
    (mixes_mul (by decide : 0x94d049bb133111eb % 2 = 1) : Mixes (2 ^ 64) _)
  exact (first.comp second).comp (mixes_xorShift (by decide : 0 < 31))

/-- The draws that follow the first `start` ones. -/
def drawn32 (env : Env) (seed start n : Nat) : Nat :=
  u32 ((env.seeded seed).rand32 (start + n))

def drawn64 (env : Env) (seed start n : Nat) : Nat :=
  u64 ((env.seeded seed).rand64 (start + n))

section Draws

variable {env : Env} {seed start : Nat}

theorem drawn32_mixes : Mixes (2 ^ 32) (drawn32 env seed start) := by
  unfold drawn32
  simp only [seeded_rand32]
  exact mixes_generator (by decide) splitmix32Word_mixes seed start

theorem drawn64_mixes : Mixes (2 ^ 64) (drawn64 env seed start) := by
  unfold drawn64
  simp only [seeded_rand64]
  exact mixes_generator (by decide) splitmix64Word_mixes seed start

theorem drawn32_period (n : Nat) :
    drawn32 env seed start (n + 2 ^ 32) = drawn32 env seed start n := by
  unfold drawn32
  rw [seeded_rand32, seeded_rand32, ← Nat.add_assoc]
  exact congrArg splitmix32Word (counter_period seed (start + n))

theorem drawn64_period (n : Nat) :
    drawn64 env seed start (n + 2 ^ 64) = drawn64 env seed start n := by
  unfold drawn64
  rw [seeded_rand64, seeded_rand64, ← Nat.add_assoc]
  exact congrArg splitmix64Word (counter_period seed (start + n))

/-- Whatever the seed and wherever one starts to count, a generator returns each of its words
once before it starts again. -/
theorem draws_once (env : Env) (seed start : Nat) :
    ((∀ word < 2 ^ 32, ∃! n, n < 2 ^ 32 ∧ drawn32 env seed start n = word) ∧
      ∀ n, drawn32 env seed start (n + 2 ^ 32) = drawn32 env seed start n) ∧
    (∀ word < 2 ^ 64, ∃! n, n < 2 ^ 64 ∧ drawn64 env seed start n = word) ∧
      ∀ n, drawn64 env seed start (n + 2 ^ 64) = drawn64 env seed start n :=
  ⟨⟨fun _ small => drawn32_mixes.existsUnique small, drawn32_period⟩,
    fun _ small => drawn64_mixes.existsUnique small, drawn64_period⟩

/-- Over a period an index below `count` is drawn `2 ^ 32 / count` times, or once more if it is
one of the first few. -/
theorem indices_even (env : Env) (seed start : Nat) {count i : Nat} (inside : i < count) :
    Nat.count (fun n => drawn32 env seed start n % count = i) (2 ^ 32) =
      2 ^ 32 / count + if i < 2 ^ 32 % count then 1 else 0 :=
  drawn32_mixes.count_mod (Nat.zero_lt_of_lt inside) inside

/-- Of three indices the first one has a draw more than the others. -/
theorem indices_even_three : 0 < 3 ∧
    Nat.count (fun n => drawn32 (Env.willing fun _ => 0) 7 0 n % 3 = 0) (2 ^ 32) =
      2 ^ 32 / 3 + if 0 < 2 ^ 32 % 3 then 1 else 0 :=
  ⟨by decide, indices_even _ 7 0 (by decide)⟩

end Draws

end Sealloc
