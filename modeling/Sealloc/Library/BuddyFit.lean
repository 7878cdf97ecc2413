import Sealloc.Library.Buddy

/-! Where a buddy tree takes a part from: the lowest free place of the size. -/

namespace Sealloc.Library.Buddy

/-- A place for a part of height `k` in a tree that starts at `b`: aligned, inside, and apart
from all parts in use. -/
structure Place (k b h : Nat) (t : Buddy) (o : Nat) : Prop where
  aligned : 2 ^ k ∣ o
  low : b ≤ o
  high : o + 2 ^ k ≤ b + 2 ^ h
  apart : ∀ part ∈ blocks b h t, Apart (o, k) part

variable {k b h o : Nat} {left right : Buddy}

theorem place_left (place : Place k b h left o) : Place k b (h + 1) (node left right) o where
  aligned := place.aligned
  low := place.low
  high := by
    have := place.high
    rw [Nat.pow_succ]
    omega
  apart := by
    intro part member
    rcases List.mem_append.mp member with inLeft | inRight
    · exact place.apart part inLeft
    · have bounds := block_bounds inRight
      have high := place.high
      exact Or.inl (by simp only; omega)

theorem place_right (place : Place k (b + 2 ^ h) h right o) :
    Place k b (h + 1) (node left right) o where
  aligned := place.aligned
  low := (Nat.le_add_right b (2 ^ h)).trans place.low
  high := by
    have := place.high
    rw [Nat.pow_succ]
    omega
  apart := by
    intro part member
    rcases List.mem_append.mp member with inLeft | inRight
    · have bounds := block_bounds inLeft
      have low := place.low
      exact Or.inr (by simp only; omega)
    · exact place.apart part inRight

/-- A place that is smaller than the tree is in one of its halves. -/
theorem place_side (fits : k ≤ h) (base : 2 ^ h ∣ b)
    (place : Place k b (h + 1) (node left right) o) :
    Place k b h left o ∨ Place k (b + 2 ^ h) h right o := by
  have high := place.high
  rw [Nat.pow_succ] at high
  have middle : 2 ^ k ∣ b + 2 ^ h := by
    have small : 2 ^ k ∣ 2 ^ h := Nat.pow_dvd_pow 2 fits
    exact (Nat.dvd_add_right (small.trans base)).mpr small
  rcases Nat.lt_or_ge o (b + 2 ^ h) with below | above
  · left
    rcases middle with ⟨m, middleAt⟩
    rcases place.aligned with ⟨n, startAt⟩
    have less : n < m := by
      apply Nat.lt_of_mul_lt_mul_left (a := 2 ^ k)
      rw [← startAt, ← middleAt]
      exact below
    have next : o + 2 ^ k ≤ b + 2 ^ h := by
      calc
        o + 2 ^ k = 2 ^ k * (n + 1) := by rw [startAt, Nat.mul_succ]
        _ ≤ 2 ^ k * m := Nat.mul_le_mul_left _ less
        _ = b + 2 ^ h := middleAt.symm
    exact ⟨place.aligned, place.low, next,
      fun part member => place.apart part (List.mem_append_left _ member)⟩
  · right
    exact ⟨place.aligned, above, by omega,
      fun part member => place.apart part (List.mem_append_right _ member)⟩

/-- A tree that is in use somewhere has no place of its own size. -/
theorem no_place {t : Buddy} (wf : WellFormed h t) (used : t ≠ free) : ¬ Place h b h t o := by
  intro place
  have low := place.low
  have high := place.high
  have start : o = b := by omega
  cases parts : blocks b h t with
  | nil => exact blocks_ne_nil wf used parts
  | cons part rest =>
      have member : part ∈ blocks b h t := by
        rw [parts]
        exact List.mem_cons_self
      have bounds := block_bounds member
      have apart := place.apart part member
      have some := Nat.two_pow_pos part.2
      unfold Apart at apart
      simp only at apart
      omega

/-- `alloc` takes the lowest place, and fails only where there is none. -/
theorem alloc_lowest {t : Buddy} (wf : WellFormed h t) (fits : k ≤ h) (base : 2 ^ h ∣ b) :
    match alloc k h t with
    | none => ∀ o, ¬ Place k b h t o
    | some (offset, _) => Place k b h t (b + offset) ∧ ∀ o, Place k b h t o → b + offset ≤ o := by
  induction t generalizing h b with
  | free =>
      rw [alloc_free]
      have small : 2 ^ k ∣ 2 ^ h := Nat.pow_dvd_pow 2 fits
      refine ⟨⟨small.trans base, Nat.le_refl _, ?_, ?_⟩, fun o place => place.low⟩
      · exact Nat.add_le_add_left (Nat.pow_le_pow_right (by decide) fits) b
      · intro part member
        rw [blocks_free] at member
        exact absurd member List.not_mem_nil
  | used =>
      rw [alloc_used]
      intro o place
      have apart := place.apart (b, h) (by rw [blocks_used]; exact List.mem_cons_self)
      have low := place.low
      have high := place.high
      have some := Nat.two_pow_pos k
      unfold Apart at apart
      simp only at apart
      omega
  | node left right ihl ihr =>
      cases h with
      | zero => exact wf.elim
      | succ h =>
          have wfl := wf.1
          have wfr := wf.2.1
          have half : 2 ^ h ∣ b := (Nat.pow_dvd_pow 2 (Nat.le_succ h)).trans base
          have middle : 2 ^ h ∣ b + 2 ^ h := (Nat.dvd_add_right half).mpr (Nat.dvd_refl _)
          rcases Nat.eq_or_lt_of_le fits with whole | smaller
          · have none : alloc k (h + 1) (node left right) = none := if_pos whole
            rw [none]
            intro o place
            rw [whole] at place
            exact no_place wf (by simp) place
          · have part : k ≠ h + 1 := by omega
            have fitsHalf : k ≤ h := by omega
            have first := ihl wfl fitsHalf half
            have second := ihr wfr fitsHalf middle
            rw [alloc, if_neg part]
            cases inLeft : alloc k h left with
            | some result =>
                rcases result with ⟨offset, rest⟩
                rw [inLeft] at first
                refine ⟨place_left first.1, ?_⟩
                intro o place
                rcases place_side fitsHalf half place with here | there
                · exact first.2 o here
                · have before := first.1.high
                  have after := there.low
                  have some := Nat.two_pow_pos k
                  omega
            | none =>
                rw [inLeft] at first
                cases inRight : alloc k h right with
                | some result =>
                    rcases result with ⟨offset, rest⟩
                    rw [inRight] at second
                    simp only
                    rw [← Nat.add_assoc]
                    refine ⟨place_right second.1, ?_⟩
                    intro o place
                    rcases place_side fitsHalf half place with here | there
                    · exact absurd here (first o)
                    · exact second.2 o there
                | none =>
                    rw [inRight] at second
                    intro o place
                    rcases place_side fitsHalf half place with here | there
                    · exact first o here
                    · exact second o there

end Sealloc.Library.Buddy
