import Mathlib.Tactic
import Mathlib.Data.Nat.Digits.Lemmas

/-! Numbers written in a base into the end of a buffer, last digit first, and read back. -/

namespace Sealloc.Library

variable {α : Type}

/-- The items of a buffer from `start` on. -/
def stretch (buf : Nat → α) (start len : Nat) : List α :=
  (List.range len).map fun i => buf (start + i)

theorem stretch_snoc (buf : Nat → α) (start len : Nat) :
    stretch buf start (len + 1) = stretch buf start len ++ [buf (start + len)] := by
  unfold stretch
  rw [List.range_succ, List.map_append, List.map_singleton]

theorem stretch_cons (buf : Nat → α) (start len : Nat) :
    stretch buf start (len + 1) = buf start :: stretch buf (start + 1) len := by
  unfold stretch
  rw [List.range_succ_eq_map, List.map_cons, List.map_map, Nat.add_zero]
  congr 1
  apply List.map_congr_left
  intro i _
  simp only [Function.comp_apply, Nat.succ_eq_add_one]
  congr 1
  omega

theorem stretch_congr {buf buf' : Nat → α} {start len : Nat}
    (same : ∀ i, start ≤ i → buf i = buf' i) : stretch buf start len = stretch buf' start len := by
  apply List.map_congr_left
  intro i _
  exact same _ (Nat.le_add_right start i)

section Writing

variable (base : Nat) (glyph : Nat → α)

/-- Write the digits of `n` at `idx` and in front of it, as far as `low` allows; what is returned
is the buffer and the place in front of the first digit. -/
def writeDigits (low : Nat) : Nat → Nat → (Nat → α) → (Nat → α) × Nat
  | 0, _, buf => (buf, 0)
  | idx + 1, n, buf =>
      if low < idx + 1 ∧ 0 < n then
        writeDigits low idx (n / base) (Function.update buf (idx + 1) (glyph (n % base)))
      else (buf, idx + 1)

/-- The digits of a number, the highest first. -/
def numeral (n : Nat) : List α := (Nat.digits base n).reverse.map glyph

variable {base glyph}

theorem numeral_length (n : Nat) : (numeral base glyph n).length = (Nat.digits base n).length := by
  unfold numeral
  rw [List.length_map, List.length_reverse]

theorem numeral_step (large : 1 < base) {n : Nat} (some : 0 < n) :
    numeral base glyph n = numeral base glyph (n / base) ++ [glyph (n % base)] := by
  unfold numeral
  rw [Nat.digits_def' large some, List.reverse_cons, List.map_append, List.map_singleton]

theorem numeral_zero : numeral base glyph 0 = [] := by
  unfold numeral
  rw [Nat.digits_zero, List.reverse_nil, List.map_nil]

/-- With room for all digits the numeral stands where it should, and what follows it is kept. -/
theorem writeDigits_spec (large : 1 < base) (low : Nat) : ∀ idx n (buf : Nat → α),
    low + (numeral base glyph n).length ≤ idx →
    (writeDigits base glyph low idx n buf).2 + (numeral base glyph n).length = idx ∧
      stretch (writeDigits base glyph low idx n buf).1
        ((writeDigits base glyph low idx n buf).2 + 1) (numeral base glyph n).length =
          numeral base glyph n ∧
      ∀ i, idx < i → (writeDigits base glyph low idx n buf).1 i = buf i := by
  intro idx
  induction idx with
  | zero =>
      intro n buf room
      have nothing : numeral base glyph n = [] := List.length_eq_zero_iff.mp (by omega)
      rw [nothing]
      exact ⟨rfl, rfl, fun i _ => rfl⟩
  | succ idx ih =>
      intro n buf room
      rcases Nat.eq_zero_or_pos n with rfl | some
      · rw [writeDigits, if_neg (fun both => absurd both.2 (Nat.lt_irrefl 0)), numeral_zero]
        exact ⟨rfl, rfl, fun i _ => rfl⟩
      · have step := @numeral_step _ base glyph large n some
        have length : (numeral base glyph n).length =
            (numeral base glyph (n / base)).length + 1 := by
          rw [step, List.length_append, List.length_singleton]
        rw [writeDigits, if_pos ⟨by omega, some⟩]
        generalize next : Function.update buf (idx + 1) (glyph (n % base)) = buf'
        rcases ih (n / base) buf' (by omega) with ⟨place, written, kept⟩
        generalize writeDigits base glyph low idx (n / base) buf' = out at place written kept
        refine ⟨by omega, ?_, ?_⟩
        · have last : out.1 (out.2 + 1 + (numeral base glyph (n / base)).length) =
              glyph (n % base) := by
            have same : out.2 + 1 + (numeral base glyph (n / base)).length = idx + 1 := by omega
            rw [same, kept _ (Nat.lt_succ_self idx), ← next, Function.update_self]
          rw [length, stretch_snoc, written, last, ← step]
        · intro i beyond
          rw [kept i (Nat.lt_of_succ_lt beyond), ← next,
            Function.update_of_ne (Nat.ne_of_gt beyond)]

end Writing

section Reading

variable (base : Int) (value : α → Int)

/-- The number that a string of digits stands for, read from the front. -/
def readNumeral (digits : List α) : Int := digits.foldl (fun n digit => n * base + value digit) 0

variable {base value}

theorem readNumeral_snoc (digits : List α) (digit : α) :
    readNumeral base value (digits ++ [digit]) = readNumeral base value digits * base + value digit := by
  unfold readNumeral
  rw [List.foldl_append]
  rfl

/-- Reading a numeral gives back the number. -/
theorem readNumeral_numeral {base : Nat} {glyph : Nat → α} (large : 1 < base)
    (glyphs : ∀ d < base, value (glyph d) = d) (n : Nat) :
    readNumeral (base : Int) value (numeral base glyph n) = n := by
  induction n using Nat.strong_induction_on with
  | _ n ih =>
      rcases Nat.eq_zero_or_pos n with rfl | some
      · rw [numeral_zero]
        rfl
      · rw [numeral_step large some, readNumeral_snoc, ih _ (Nat.div_lt_self some large),
          glyphs _ (Nat.mod_lt _ (Nat.zero_lt_of_lt large))]
        have whole := Nat.div_add_mod n base
        have cast : (base : Int) * (n / base : Nat) + (n % base : Nat) = n := by exact_mod_cast whole
        rw [Int.mul_comm]
        exact cast

end Reading

end Sealloc.Library
