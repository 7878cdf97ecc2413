import Mathlib.Tactic
import Mathlib.Data.Int.CardIntervalMod
import Mathlib.Data.Nat.ModEq

/-! Generators that count through the words of a width and scramble each of them by steps that
can be undone. -/

namespace Sealloc.Library

/-- A function on the words below `size` that no two of them share a value of. -/
structure Mixes (size : Nat) (f : Nat → Nat) : Prop where
  below : ∀ x < size, f x < size
  injective : ∀ x < size, ∀ y < size, f x = f y → x = y

namespace Mixes

variable {size : Nat} {f g : Nat → Nat}

theorem comp (first : Mixes size f) (second : Mixes size g) : Mixes size (fun x => g (f x)) where
  below := fun x small => second.below _ (first.below x small)
  injective := by
    intro x smallX y smallY same
    have inner := second.injective _ (first.below x smallX) _ (first.below y smallY) same
    exact first.injective x smallX y smallY inner

/-- Every word is a value. -/
theorem surjective (mixes : Mixes size f) {y : Nat} (small : y < size) : ∃ x < size, f x = y := by
  let onFin : Fin size → Fin size := fun x => ⟨f x, mixes.below x x.isLt⟩
  have injective : Function.Injective onFin := by
    intro x x' same
    exact Fin.ext (mixes.injective x x.isLt x' x'.isLt (congrArg Fin.val same))
  rcases Finite.surjective_of_injective injective ⟨y, small⟩ with ⟨x, value⟩
  exact ⟨x, x.isLt, congrArg Fin.val value⟩

theorem existsUnique (mixes : Mixes size f) {y : Nat} (small : y < size) :
    ∃! x, x < size ∧ f x = y := by
  rcases mixes.surjective small with ⟨x, inside, value⟩
  refine ⟨x, ⟨inside, value⟩, ?_⟩
  rintro x' ⟨inside', value'⟩
  exact mixes.injective x' inside' x inside (value'.trans value.symm)

/-- How often a property of words holds does not depend on their order. -/
theorem count_eq (mixes : Mixes size f) (p : Nat → Prop) [DecidablePred p] :
    Nat.count (fun x => p (f x)) size = Nat.count p size := by
  rw [Nat.count_eq_card_filter_range, Nat.count_eq_card_filter_range]
  apply Finset.card_bij (fun x _ => f x)
  · intro x member
    rw [Finset.mem_filter, Finset.mem_range] at member ⊢
    exact ⟨mixes.below x member.1, member.2⟩
  · intro x memberX y memberY same
    rw [Finset.mem_filter, Finset.mem_range] at memberX memberY
    exact mixes.injective x memberX.1 y memberY.1 same
  · intro y member
    rw [Finset.mem_filter, Finset.mem_range] at member
    rcases mixes.surjective member.1 with ⟨x, inside, value⟩
    refine ⟨x, ?_, value⟩
    rw [Finset.mem_filter, Finset.mem_range, value]
    exact ⟨inside, member.2⟩

/-- Reduced to `m` values, each is taken equally often, up to one. -/
theorem count_mod (mixes : Mixes size f) {m r : Nat} (some : 0 < m) (small : r < m) :
    Nat.count (fun x => f x % m = r) size = size / m + if r < size % m then 1 else 0 := by
  have residues : (fun x => x % m = r) = fun x => x ≡ r [MOD m] := by
    funext x
    unfold Nat.ModEq
    rw [Nat.mod_eq_of_lt small]
  rw [mixes.count_eq fun x => x % m = r]
  simp only [residues]
  rw [Nat.count_modEq_card size some r, Nat.mod_eq_of_lt small]

end Mixes

section Steps

variable {width : Nat}

/-- The bits of `x ^ (x >> k)` give back those of `x`, from the highest downwards. -/
theorem xor_shiftRight_injective {k x y : Nat} (shifts : 0 < k)
    (same : x ^^^ (x >>> k) = y ^^^ (y >>> k)) : x = y := by
  -- all bits from `i` upwards agree, by induction on the distance to a bound of both
  have upper : ∀ rounds i, x < 2 ^ (i + rounds) → y < 2 ^ (i + rounds) →
      ∀ j, i ≤ j → x.testBit j = y.testBit j := by
    intro rounds
    induction rounds with
    | zero =>
        intro i smallX smallY j above
        have grows : 2 ^ (i + 0) ≤ 2 ^ j := Nat.pow_le_pow_right Nat.two_pos above
        rw [Nat.testBit_lt_two_pow (lt_of_lt_of_le smallX grows),
          Nat.testBit_lt_two_pow (lt_of_lt_of_le smallY grows)]
    | succ rounds ih =>
        intro i smallX smallY j above
        have bound : i + (rounds + 1) = i + 1 + rounds := by omega
        rw [bound] at smallX smallY
        have later := ih (i + 1) smallX smallY
        rcases Nat.eq_or_lt_of_le above with rfl | beyond
        · have bit := congrArg (fun n => n.testBit i) same
          simp only [Nat.testBit_xor, Nat.testBit_shiftRight] at bit
          rw [later (k + i) (by omega)] at bit
          exact Bool.xor_left_inj.mp bit
        · exact later j beyond
  apply Nat.eq_of_testBit_eq
  intro j
  have smallX : x < 2 ^ (0 + (x + y)) := by
    have := @Nat.lt_two_pow_self (x + y)
    rw [Nat.zero_add]
    omega
  have smallY : y < 2 ^ (0 + (x + y)) := by
    have := @Nat.lt_two_pow_self (x + y)
    rw [Nat.zero_add]
    omega
  exact upper (x + y) 0 smallX smallY j (Nat.zero_le j)

theorem mixes_xorShift {k : Nat} (shifts : 0 < k) :
    Mixes (2 ^ width) (fun x => x ^^^ (x >>> k)) where
  below := by
    intro x small
    apply Nat.xor_lt_two_pow small
    rw [Nat.shiftRight_eq_div_pow]
    exact lt_of_le_of_lt (Nat.div_le_self ..) small
  injective := fun _ _ _ _ same => xor_shiftRight_injective shifts same

theorem mixes_mul {c : Nat} (odd : c % 2 = 1) :
    Mixes (2 ^ width) (fun x => x * c % 2 ^ width) where
  below := fun _ _ => Nat.mod_lt _ (Nat.two_pow_pos width)
  injective := by
    intro x smallX y smallY same
    have coprime : Nat.gcd (2 ^ width) c = 1 :=
      Nat.Coprime.pow_left width ((Nat.coprime_two_left).mpr (Nat.odd_iff.mpr odd))
    have residues : x ≡ y [MOD 2 ^ width] := Nat.ModEq.cancel_right_of_coprime coprime same
    exact Nat.ModEq.eq_of_lt_of_lt residues smallX smallY

/-- The states that a counter with an odd step goes through. -/
theorem mixes_counter {c : Nat} (odd : c % 2 = 1) (start : Nat) :
    Mixes (2 ^ width) (fun n => (start + n * c) % 2 ^ width) where
  below := fun _ _ => Nat.mod_lt _ (Nat.two_pow_pos width)
  injective := by
    intro n smallN n' smallN' same
    have steps : n * c ≡ n' * c [MOD 2 ^ width] := Nat.ModEq.add_left_cancel' start same
    exact (mixes_mul odd).injective n smallN n' smallN' steps

/-- A counter that is stepped before each use. -/
theorem counter_iterate (size c seed n : Nat) :
    (fun state => (state + c) % size)^[n + 1] seed = (seed + (n + 1) * c) % size := by
  induction n with
  | zero => rw [Function.iterate_one, Nat.zero_add, Nat.one_mul]
  | succ n ih =>
      rw [Function.iterate_succ_apply', ih, Nat.mod_add_mod]
      congr 1
      ring

/-- The values of a generator from any point on: its counter is stepped and then scrambled. -/
theorem mixes_generator {c : Nat} {scramble : Nat → Nat} (odd : c % 2 = 1)
    (mixes : Mixes (2 ^ width) scramble) (seed start : Nat) :
    Mixes (2 ^ width) fun n =>
      scramble ((fun state => (state + c) % 2 ^ width)^[start + n + 1] seed) := by
  have counter := @mixes_counter width c odd (seed + (start + 1) * c)
  have same : (fun n => scramble ((fun state => (state + c) % 2 ^ width)^[start + n + 1] seed)) =
      fun n => scramble ((seed + (start + 1) * c + n * c) % 2 ^ width) := by
    funext n
    rw [counter_iterate]
    congr 2
    ring
  rw [same]
  exact counter.comp mixes

/-- After a whole period the values start again. -/
theorem counter_period {c : Nat} (seed n : Nat) :
    (fun state => (state + c) % 2 ^ width)^[n + 2 ^ width + 1] seed =
      (fun state => (state + c) % 2 ^ width)^[n + 1] seed := by
  rw [counter_iterate, counter_iterate]
  have same : seed + (n + 2 ^ width + 1) * c = seed + (n + 1) * c + 2 ^ width * c := by ring
  rw [same, Nat.add_mul_mod_self_left]

end Steps

end Sealloc.Library
