import Mathlib.Tactic

/-! The buddy system as a tree.

A tree of height `h` stands for `2 ^ h` units. A `node` has been split: its
halves are the left and the right tree, each of height one less. Offsets count
units from the left end of the whole area. -/

namespace Sealloc.Library

inductive Buddy where
  | free
  | used
  | node (left right : Buddy)
  deriving DecidableEq, Repr

namespace Buddy

/-- No free unit is left. -/
def full : Buddy → Bool
  | free => false
  | used => true
  | node left right => left.full && right.full

/-- A split tree is not a single unit, and its halves are not both free. -/
def WellFormed : Nat → Buddy → Prop
  | _, free => True
  | _, used => True
  | 0, node _ _ => False
  | h + 1, node left right =>
      WellFormed h left ∧ WellFormed h right ∧ ¬ (left = free ∧ right = free)

/-- A free tree of height `h` whose leftmost part of height `k` has been taken. -/
def carve (k : Nat) : Nat → Buddy
  | 0 => used
  | h + 1 => if k = h + 1 then used else node (carve k h) free

/-- Take the leftmost free part of height `k`: its offset and the tree that is left. -/
def alloc (k : Nat) : Nat → Buddy → Option (Nat × Buddy)
  | h, free => some (0, carve k h)
  | _, used => none
  | 0, node _ _ => none
  | h + 1, node left right =>
      if k = h + 1 then none
      else match alloc k h left with
        | some (offset, rest) => some (offset, node rest right)
        | none =>
            match alloc k h right with
            | some (offset, rest) => some (2 ^ h + offset, node left rest)
            | none => none

/-- Join two halves; two free halves become one free tree. -/
def merge : Buddy → Buddy → Buddy
  | free, free => free
  | left, right => node left right

/-- Give back the part that starts at an offset. -/
def release : Nat → Nat → Buddy → Buddy
  | _, _, free => free
  | _, _, used => free
  | _, 0, node left right => node left right
  | offset, h + 1, node left right =>
      if offset < 2 ^ h then merge (release offset h left) right
      else merge left (release (offset - 2 ^ h) h right)

/-- The taken parts of a tree that starts at `b`, each with its offset and height. -/
def blocks (b : Nat) : Nat → Buddy → List (Nat × Nat)
  | _, free => []
  | h, used => [(b, h)]
  | 0, node _ _ => []
  | h + 1, node left right => blocks b h left ++ blocks (b + 2 ^ h) h right

section Equations

attribute [local simp] full WellFormed carve alloc merge release blocks

@[simp] theorem wellFormed_free (h : Nat) : WellFormed h free := by cases h <;> simp

@[simp] theorem wellFormed_used (h : Nat) : WellFormed h used := by cases h <;> simp

@[simp] theorem alloc_free (k h : Nat) : alloc k h free = some (0, carve k h) := by
  cases h <;> simp

@[simp] theorem alloc_used (k h : Nat) : alloc k h used = none := by cases h <;> simp

@[simp] theorem release_free (offset h : Nat) : release offset h free = free := by
  cases h <;> simp

@[simp] theorem release_used (offset h : Nat) : release offset h used = free := by
  cases h <;> simp

@[simp] theorem blocks_free (b h : Nat) : blocks b h free = [] := by cases h <;> simp

@[simp] theorem blocks_used (b h : Nat) : blocks b h used = [(b, h)] := by
  cases h <;> simp

end Equations

/-- The number of units in a list of parts. -/
def units (parts : List (Nat × Nat)) : Nat := (parts.map fun part => 2 ^ part.2).sum

/-- A unit lies in a part. -/
def Inside (part : Nat × Nat) (unit : Nat) : Prop :=
  part.1 ≤ unit ∧ unit < part.1 + 2 ^ part.2

/-- Two parts share no unit. -/
def Apart (first second : Nat × Nat) : Prop :=
  first.1 + 2 ^ first.2 ≤ second.1 ∨ second.1 + 2 ^ second.2 ≤ first.1

@[simp] theorem units_nil : units [] = 0 := rfl

@[simp] theorem units_cons (part : Nat × Nat) (parts : List (Nat × Nat)) :
    units (part :: parts) = 2 ^ part.2 + units parts := by
  simp [units]

@[simp] theorem units_append (first second : List (Nat × Nat)) :
    units (first ++ second) = units first + units second := by
  simp [units]

theorem units_perm {first second : List (Nat × Nat)} (perm : first.Perm second) :
    units first = units second := (perm.map _).sum_eq

theorem merge_node {left right : Buddy} (split : ¬ (left = free ∧ right = free)) :
    merge left right = node left right := by
  cases left <;> cases right <;> simp_all [merge]

theorem merge_wellFormed {h : Nat} {left right : Buddy} (hl : WellFormed h left)
    (hr : WellFormed h right) : WellFormed (h + 1) (merge left right) := by
  by_cases both : left = free ∧ right = free
  · obtain ⟨rfl, rfl⟩ := both
    exact wellFormed_free _
  · rw [merge_node both]
    exact ⟨hl, hr, both⟩

theorem merge_blocks (b h : Nat) (left right : Buddy) :
    blocks b (h + 1) (merge left right) =
      blocks b h left ++ blocks (b + 2 ^ h) h right := by
  by_cases both : left = free ∧ right = free
  · obtain ⟨rfl, rfl⟩ := both
    simp [merge]
  · rw [merge_node both]
    rfl

theorem carve_ne_free (k h : Nat) : carve k h ≠ free := by
  cases h with
  | zero => simp [carve]
  | succ h =>
      unfold carve
      split <;> simp

theorem carve_wellFormed (k h : Nat) : WellFormed h (carve k h) := by
  induction h with
  | zero => trivial
  | succ h ih =>
      unfold carve
      split
      · exact wellFormed_used _
      · exact ⟨ih, wellFormed_free _, fun both => carve_ne_free k h both.1⟩

theorem carve_blocks (b k h : Nat) (fits : k ≤ h) :
    blocks b h (carve k h) = [(b, k)] := by
  induction h with
  | zero =>
      have zero : k = 0 := by omega
      simp [carve, zero]
  | succ h ih =>
      unfold carve
      split
      · next same => simp [blocks, same]
      · next smaller =>
          simp only [blocks, ih (by omega), List.append_nil]

theorem alloc_full {k h : Nat} {t : Buddy} (taken : t.full = true) : alloc k h t = none := by
  induction t generalizing h with
  | free => simp [full] at taken
  | used => cases h <;> rfl
  | node left right ihl ihr =>
      simp only [full, Bool.and_eq_true] at taken
      cases h with
      | zero => rfl
      | succ h =>
          simp only [alloc, ihl taken.1, ihr taken.2]
          split <;> rfl

theorem alloc_wellFormed {k h offset : Nat} {t rest : Buddy} (wf : WellFormed h t)
    (taken : alloc k h t = some (offset, rest)) : WellFormed h rest ∧ rest ≠ free := by
  induction t generalizing h offset rest with
  | free =>
      have result : rest = carve k h := by
        cases h <;> (simp only [alloc, Option.some.injEq, Prod.mk.injEq] at taken; exact taken.2.symm)
      subst result
      exact ⟨carve_wellFormed k h, carve_ne_free k h⟩
  | used => cases h <;> simp [alloc] at taken
  | node left right ihl ihr =>
      cases h with
      | zero => simp [alloc] at taken
      | succ h =>
          obtain ⟨wfl, wfr, split⟩ := wf
          simp only [alloc] at taken
          split at taken
          · simp at taken
          · cases first : alloc k h left with
            | some result =>
                obtain ⟨o, l⟩ := result
                simp only [first, Option.some.injEq, Prod.mk.injEq] at taken
                obtain ⟨-, rfl⟩ := taken
                have part := ihl wfl first
                exact ⟨⟨part.1, wfr, fun both => part.2 both.1⟩, by simp⟩
            | none =>
                cases second : alloc k h right with
                | some result =>
                    obtain ⟨o, r⟩ := result
                    simp only [first, second, Option.some.injEq, Prod.mk.injEq] at taken
                    obtain ⟨-, rfl⟩ := taken
                    have part := ihr wfr second
                    exact ⟨⟨wfl, part.1, fun both => part.2 both.2⟩, by simp⟩
                | none => simp [first, second] at taken

/-- Taking a part adds it to the taken parts and changes no other. -/
theorem alloc_blocks {k h offset b : Nat} {t rest : Buddy} (fits : k ≤ h)
    (taken : alloc k h t = some (offset, rest)) :
    (blocks b h rest).Perm ((b + offset, k) :: blocks b h t) := by
  induction t generalizing h offset rest b with
  | free =>
      have result : offset = 0 ∧ rest = carve k h := by
        cases h <;>
          (simp only [alloc, Option.some.injEq, Prod.mk.injEq] at taken; exact ⟨taken.1.symm, taken.2.symm⟩)
      obtain ⟨rfl, rfl⟩ := result
      rw [carve_blocks b k h fits]
      cases h <;> exact List.Perm.refl _
  | used => cases h <;> simp [alloc] at taken
  | node left right ihl ihr =>
      cases h with
      | zero => simp [alloc] at taken
      | succ h =>
          simp only [alloc] at taken
          split at taken
          · simp at taken
          · next smaller =>
              cases first : alloc k h left with
              | some result =>
                  obtain ⟨o, l⟩ := result
                  simp only [first, Option.some.injEq, Prod.mk.injEq] at taken
                  obtain ⟨rfl, rfl⟩ := taken
                  exact (ihl (by omega) first).append_right _
              | none =>
                  cases second : alloc k h right with
                  | some result =>
                      obtain ⟨o, r⟩ := result
                      simp only [first, second, Option.some.injEq, Prod.mk.injEq] at taken
                      obtain ⟨rfl, rfl⟩ := taken
                      have part := ihr (b := b + 2 ^ h) (by omega) second
                      have moved := (part.append_left (blocks b h left)).trans List.perm_middle
                      rw [← Nat.add_assoc]
                      exact moved
                  | none => simp [first, second] at taken

theorem block_bounds {b h : Nat} {t : Buddy} {part : Nat × Nat}
    (member : part ∈ blocks b h t) :
    b ≤ part.1 ∧ part.1 + 2 ^ part.2 ≤ b + 2 ^ h := by
  induction t generalizing h b with
  | free => cases h <;> simp [blocks] at member
  | used =>
      have same : part = (b, h) := by cases h <;> simpa [blocks] using member
      subst same
      exact ⟨Nat.le_refl _, Nat.le_refl _⟩
  | node left right ihl ihr =>
      cases h with
      | zero => simp [blocks] at member
      | succ h =>
          simp only [blocks, List.mem_append] at member
          have width : 0 < 2 ^ h := Nat.two_pow_pos h
          rcases member with member | member
          · have bounds := ihl member
            omega
          · have bounds := ihr member
            omega

/-- A part starts at a multiple of its own size. -/
theorem block_aligned {b h : Nat} {t : Buddy} {part : Nat × Nat} (aligned : 2 ^ h ∣ b)
    (member : part ∈ blocks b h t) : 2 ^ part.2 ∣ part.1 := by
  induction t generalizing h b with
  | free => cases h <;> simp [blocks] at member
  | used =>
      have same : part = (b, h) := by cases h <;> simpa [blocks] using member
      subst same
      exact aligned
  | node left right ihl ihr =>
      cases h with
      | zero => simp [blocks] at member
      | succ h =>
          simp only [blocks, List.mem_append] at member
          have half : 2 ^ h ∣ b := (Nat.pow_dvd_pow 2 (Nat.le_succ h)).trans aligned
          rcases member with member | member
          · exact ihl half member
          · exact ihr ((Nat.dvd_add_right half).mpr (Nat.dvd_refl _)) member

theorem blocks_apart (b h : Nat) (t : Buddy) : (blocks b h t).Pairwise Apart := by
  induction t generalizing h b with
  | free => cases h <;> simp [blocks]
  | used => cases h <;> simp [blocks]
  | node left right ihl ihr =>
      cases h with
      | zero => simp [blocks]
      | succ h =>
          refine List.pairwise_append.mpr ⟨ihl b h, ihr (b + 2 ^ h) h, ?_⟩
          intro first inLeft second inRight
          have low := block_bounds inLeft
          have high := block_bounds inRight
          exact Or.inl (by omega)

/-- A unit of a full tree lies in one of its parts. -/
theorem full_covers {b h : Nat} {t : Buddy} (wf : WellFormed h t) (taken : t.full = true)
    {unit : Nat} (low : b ≤ unit) (high : unit < b + 2 ^ h) :
    ∃ part ∈ blocks b h t, Inside part unit := by
  induction t generalizing h b with
  | free => simp [full] at taken
  | used => exact ⟨(b, h), by cases h <;> simp [blocks], low, high⟩
  | node left right ihl ihr =>
      cases h with
      | zero => exact wf.elim
      | succ h =>
          simp only [full, Bool.and_eq_true] at taken
          have double : 2 ^ (h + 1) = 2 ^ h + 2 ^ h := by rw [Nat.pow_succ]; omega
          by_cases side : unit < b + 2 ^ h
          · obtain ⟨part, member, inside⟩ := ihl wf.1 taken.1 low side
            exact ⟨part, List.mem_append_left _ member, inside⟩
          · obtain ⟨part, member, inside⟩ :=
              ihr (b := b + 2 ^ h) wf.2.1 taken.2 (by omega) (by omega)
            exact ⟨part, List.mem_append_right _ member, inside⟩

/-- A tree that is not full has a unit outside all of its parts. -/
theorem not_full_uncovered {b h : Nat} {t : Buddy} (notFull : t.full = false) :
    ∃ unit, b ≤ unit ∧ unit < b + 2 ^ h ∧
      ∀ part ∈ blocks b h t, ¬ Inside part unit := by
  have positive : ∀ n, 0 < 2 ^ n := fun n => Nat.two_pow_pos _
  induction t generalizing h b with
  | free =>
      refine ⟨b, Nat.le_refl _, by have := positive h; omega, ?_⟩
      intro part member
      cases h <;> simp [blocks] at member
  | used => simp [full] at notFull
  | node left right ihl ihr =>
      cases h with
      | zero =>
          refine ⟨b, Nat.le_refl _, by have := positive 0; omega, ?_⟩
          intro part member
          simp [blocks] at member
      | succ h =>
          have double : 2 ^ (h + 1) = 2 ^ h + 2 ^ h := by rw [Nat.pow_succ]; omega
          cases sides : left.full with
          | false =>
              obtain ⟨unit, low, high, outside⟩ := ihl (b := b) (h := h) sides
              refine ⟨unit, low, by omega, ?_⟩
              intro part member inside
              rcases List.mem_append.mp member with member | member
              · exact outside part member inside
              · have bounds := block_bounds member
                have within := inside.1
                omega
          | true =>
              have rightOpen : right.full = false := by simpa [full, sides] using notFull
              obtain ⟨unit, low, high, outside⟩ := ihr (b := b + 2 ^ h) (h := h) rightOpen
              refine ⟨unit, by omega, by omega, ?_⟩
              intro part member inside
              rcases List.mem_append.mp member with member | member
              · have bounds := block_bounds member
                have within := inside.2
                omega
              · exact outside part member inside

theorem blocks_ne_nil {b h : Nat} {t : Buddy} (wf : WellFormed h t) (split : t ≠ free) :
    blocks b h t ≠ [] := by
  induction t generalizing h b with
  | free => exact absurd rfl split
  | used => cases h <;> simp [blocks]
  | node left right ihl ihr =>
      cases h with
      | zero => exact wf.elim
      | succ h =>
          obtain ⟨wfl, wfr, notBoth⟩ := wf
          intro empty
          obtain ⟨emptyLeft, emptyRight⟩ := List.append_eq_nil_iff.mp empty
          apply notBoth
          constructor
          · by_contra left
            exact ihl wfl left emptyLeft
          · by_contra right
            exact ihr wfr right emptyRight

/-- A part of a split tree lies in its left half or in its right half. -/
theorem block_side {b h offset k : Nat} {left right : Buddy}
    (member : (b + offset, k) ∈ blocks b (h + 1) (node left right)) :
    (offset < 2 ^ h ∧ (b + offset, k) ∈ blocks b h left) ∨
      (2 ^ h ≤ offset ∧
        (b + 2 ^ h + (offset - 2 ^ h), k) ∈ blocks (b + 2 ^ h) h right) := by
  have positive : 0 < 2 ^ k := Nat.two_pow_pos _
  rcases List.mem_append.mp member with inLeft | inRight
  · left
    have bounds := block_bounds inLeft
    simp only at bounds
    exact ⟨by omega, inLeft⟩
  · right
    have bounds := block_bounds inRight
    simp only at bounds
    refine ⟨by omega, ?_⟩
    rwa [show b + 2 ^ h + (offset - 2 ^ h) = b + offset by omega]

/-- Giving back a part removes it from the taken parts and changes no other. -/
theorem release_blocks {k h offset b : Nat} {t : Buddy}
    (member : (b + offset, k) ∈ blocks b h t) :
    (blocks b h t).Perm ((b + offset, k) :: blocks b h (release offset h t)) := by
  induction t generalizing h offset b with
  | free => simp at member
  | used =>
      rw [blocks_used, List.mem_singleton] at member
      simp [member]
  | node left right ihl ihr =>
      cases h with
      | zero => simp [blocks] at member
      | succ h =>
          rcases block_side member with ⟨low, inLeft⟩ | ⟨high, inRight⟩
          · rw [release, if_pos low, merge_blocks]
            exact (ihl inLeft).append_right _
          · rw [release, if_neg (by omega), merge_blocks]
            have moved := ((ihr inRight).append_left (blocks b h left)).trans List.perm_middle
            rwa [show b + 2 ^ h + (offset - 2 ^ h) = b + offset by omega] at moved

theorem merge_full {left right : Buddy} (space : left.full = false ∨ right.full = false) :
    (merge left right).full = false := by
  by_cases both : left = free ∧ right = free
  · obtain ⟨rfl, rfl⟩ := both
    rfl
  · rw [merge_node both, full]
    rcases space with space | space <;> simp [space]

/-- Giving back a part leaves room. -/
theorem release_full {k h offset b : Nat} {t : Buddy}
    (member : (b + offset, k) ∈ blocks b h t) : (release offset h t).full = false := by
  induction t generalizing h offset b with
  | free => simp at member
  | used => cases h <;> rfl
  | node left right ihl ihr =>
      cases h with
      | zero => simp [blocks] at member
      | succ h =>
          rcases block_side member with ⟨low, inLeft⟩ | ⟨high, inRight⟩
          · rw [release, if_pos low]
            exact merge_full (Or.inl (ihl inLeft))
          · rw [release, if_neg (by omega)]
            exact merge_full (Or.inr (ihr inRight))

theorem release_wellFormed {h : Nat} {t : Buddy} (offset : Nat) (wf : WellFormed h t) :
    WellFormed h (release offset h t) := by
  induction t generalizing h offset with
  | free => cases h <;> trivial
  | used => cases h <;> trivial
  | node left right ihl ihr =>
      cases h with
      | zero => exact wf.elim
      | succ h =>
          simp only [release]
          split
          · exact merge_wellFormed (ihl _ wf.1) wf.2.1
          · exact merge_wellFormed wf.1 (ihr _ wf.2.1)

theorem units_le (b h : Nat) (t : Buddy) : units (blocks b h t) ≤ 2 ^ h := by
  induction t generalizing h b with
  | free => simp
  | used => simp
  | node left right ihl ihr =>
      cases h with
      | zero => simp [blocks]
      | succ h =>
          have low := ihl b h
          have high := ihr (b + 2 ^ h) h
          rw [blocks, units_append, Nat.pow_succ]
          omega

theorem units_full {h : Nat} (b : Nat) {t : Buddy} (wf : WellFormed h t)
    (taken : t.full = true) : units (blocks b h t) = 2 ^ h := by
  induction t generalizing h b with
  | free => simp [full] at taken
  | used => simp
  | node left right ihl ihr =>
      cases h with
      | zero => exact wf.elim
      | succ h =>
          simp only [full, Bool.and_eq_true] at taken
          rw [blocks, units_append, ihl b wf.1 taken.1, ihr _ wf.2.1 taken.2, Nat.pow_succ]
          omega

private theorem blocks_split {b h : Nat} {left right left' right' : Buddy}
    (same : ∀ part, part ∈ blocks b (h + 1) (node left right) ↔
      part ∈ blocks b (h + 1) (node left' right')) :
    (∀ part, part ∈ blocks b h left ↔ part ∈ blocks b h left') ∧
      ∀ part, part ∈ blocks (b + 2 ^ h) h right ↔ part ∈ blocks (b + 2 ^ h) h right' := by
  have positive : ∀ part : Nat × Nat, 0 < 2 ^ part.2 := fun _ => Nat.two_pow_pos _
  simp only [blocks, List.mem_append] at same
  constructor
  · intro part
    have width := positive part
    constructor
    · intro member
      rcases (same part).mp (Or.inl member) with found | found
      · exact found
      · have low := block_bounds member
        have high := block_bounds found
        omega
    · intro member
      rcases (same part).mpr (Or.inl member) with found | found
      · exact found
      · have low := block_bounds member
        have high := block_bounds found
        omega
  · intro part
    have width := positive part
    constructor
    · intro member
      rcases (same part).mp (Or.inr member) with found | found
      · have low := block_bounds found
        have high := block_bounds member
        omega
      · exact found
    · intro member
      rcases (same part).mpr (Or.inr member) with found | found
      · have low := block_bounds found
        have high := block_bounds member
        omega
      · exact found

theorem whole_block {b h : Nat} {t : Buddy} (wf : WellFormed h t)
    (member : (b, h) ∈ blocks b h t) : t = used := by
  cases t with
  | free => cases h <;> simp [blocks] at member
  | used => rfl
  | node left right =>
      cases h with
      | zero => exact wf.elim
      | succ h =>
          have positive : 0 < 2 ^ h := Nat.two_pow_pos _
          have double : 2 ^ (h + 1) = 2 ^ h + 2 ^ h := by rw [Nat.pow_succ]; omega
          rcases List.mem_append.mp member with found | found
          · have bounds := block_bounds found
            simp only at bounds
            omega
          · have bounds := block_bounds found
            simp only at bounds
            omega

/-- A well-formed tree is determined by its taken parts. -/
theorem eq_of_blocks {b h : Nat} {t u : Buddy} (wft : WellFormed h t) (wfu : WellFormed h u)
    (same : ∀ part, part ∈ blocks b h t ↔ part ∈ blocks b h u) : t = u := by
  induction t generalizing h b u with
  | free =>
      by_contra different
      have some := blocks_ne_nil (b := b) wfu (Ne.symm different)
      obtain ⟨part, member⟩ := List.exists_mem_of_ne_nil _ some
      have impossible := (same part).mpr member
      cases h <;> simp [blocks] at impossible
  | used =>
      have member : (b, h) ∈ blocks b h used := by cases h <;> simp [blocks]
      exact (whole_block wfu ((same _).mp member)).symm
  | node left right ihl ihr =>
      cases u with
      | free =>
          obtain ⟨part, member⟩ := List.exists_mem_of_ne_nil _
            (blocks_ne_nil (b := b) wft (by simp))
          have impossible := (same part).mp member
          cases h <;> simp [blocks] at impossible
      | used =>
          have member : (b, h) ∈ blocks b h used := by cases h <;> simp [blocks]
          exact whole_block wft ((same _).mpr member)
      | node left' right' =>
          cases h with
          | zero => exact wft.elim
          | succ h =>
              obtain ⟨sameLeft, sameRight⟩ := blocks_split same
              rw [ihl wft.1 wfu.1 sameLeft, ihr wft.2.1 wfu.2.1 sameRight]

theorem release_alloc {k h offset : Nat} {t rest : Buddy} (wf : WellFormed h t) (fits : k ≤ h)
    (taken : alloc k h t = some (offset, rest)) : release offset h rest = t := by
  have wfRest := (alloc_wellFormed wf taken).1
  have added := alloc_blocks (b := 0) fits taken
  have member : (0 + offset, k) ∈ blocks 0 h rest := added.mem_iff.mpr List.mem_cons_self
  have removed := release_blocks member
  have same : (blocks 0 h (release offset h rest)).Perm (blocks 0 h t) :=
    (List.perm_cons _).mp (removed.symm.trans added)
  exact eq_of_blocks (b := 0) (release_wellFormed offset wfRest) wf fun part => same.mem_iff

/-- One part lies inside another. -/
def Within (inner outer : Nat × Nat) : Prop :=
  outer.1 ≤ inner.1 ∧ inner.1 + 2 ^ inner.2 ≤ outer.1 + 2 ^ outer.2

theorem within_apart {inner outer : Nat × Nat} (within : Within inner outer)
    (apart : Apart inner outer) : False := by
  have := Nat.two_pow_pos inner.2
  unfold Within at within
  unfold Apart at apart
  omega

/-- The taken parts of `t` are those of `parts` that are not apart from its range. -/
def Restricts (parts : List (Nat × Nat)) (b h : Nat) (t : Buddy) : Prop :=
  (∀ part ∈ blocks b h t, part ∈ parts) ∧
    ∀ part ∈ parts, part ∈ blocks b h t ∨ Apart part (b, h)

section Restricts

variable {parts : List (Nat × Nat)} {b h : Nat} {t : Buddy}

theorem Restricts.within (restricts : Restricts parts b h t) {part : Nat × Nat}
    (member : part ∈ parts) (within : Within part (b, h)) : part ∈ blocks b h t := by
  rcases restricts.2 part member with inside | apart
  · exact inside
  · exact (within_apart within apart).elim

theorem Restricts.free_iff (restricts : Restricts parts b h t) (wf : WellFormed h t) :
    t = free ↔ ∀ part ∈ parts, ¬ Within part (b, h) := by
  constructor
  · rintro rfl part member within
    have inside := restricts.within member within
    simp at inside
  · intro nothing
    by_contra some
    obtain ⟨part, inside⟩ := List.exists_mem_of_ne_nil _ (blocks_ne_nil (b := b) wf some)
    exact nothing part (restricts.1 part inside) (block_bounds inside)

theorem Restricts.used_iff (restricts : Restricts parts b h t) (wf : WellFormed h t) :
    t = used ↔ (b, h) ∈ parts := by
  constructor
  · rintro rfl
    exact restricts.1 _ (by simp)
  · intro member
    exact whole_block wf (restricts.within member ⟨Nat.le_refl _, Nat.le_refl _⟩)

theorem Restricts.full_iff (restricts : Restricts parts b h t) (wf : WellFormed h t) :
    t.full = true ↔ ∀ unit, Inside (b, h) unit → ∃ part ∈ parts, Inside part unit := by
  constructor
  · intro taken unit inside
    obtain ⟨part, member, covers⟩ := full_covers wf taken inside.1 inside.2
    exact ⟨part, restricts.1 part member, covers⟩
  · intro covered
    by_contra space
    obtain ⟨unit, low, high, outside⟩ :=
      not_full_uncovered (b := b) (h := h) (by simpa using space)
    obtain ⟨part, member, covers⟩ := covered unit ⟨low, high⟩
    rcases restricts.2 part member with inside | apart
    · exact outside part inside covers
    · unfold Apart at apart
      unfold Inside at covers
      simp only at apart
      omega

/-- A full tree that has been split has two different parts. -/
theorem two_parts {left right : Buddy} (wf : WellFormed h (node left right))
    (taken : (node left right).full = true) :
    ∃ first ∈ blocks b h (node left right), ∃ second ∈ blocks b h (node left right),
      first.1 ≠ second.1 := by
  cases h with
  | zero => exact wf.elim
  | succ h =>
      simp only [full, Bool.and_eq_true] at taken
      have someLeft : left ≠ free := by
        rintro rfl
        simp [full] at taken
      have someRight : right ≠ free := by
        rintro rfl
        simp [full] at taken
      obtain ⟨first, inLeft⟩ := List.exists_mem_of_ne_nil _
        (blocks_ne_nil (b := b) wf.1 someLeft)
      obtain ⟨second, inRight⟩ := List.exists_mem_of_ne_nil _
        (blocks_ne_nil (b := b + 2 ^ h) wf.2.1 someRight)
      refine ⟨first, List.mem_append_left _ inLeft, second, List.mem_append_right _ inRight, ?_⟩
      have low := block_bounds inLeft
      have high := block_bounds inRight
      have := Nat.two_pow_pos first.2
      omega

theorem Restricts.several_iff (restricts : Restricts parts b h t) (wf : WellFormed h t) :
    (t.full = true ∧ t ≠ used) ↔
      (∀ unit, Inside (b, h) unit → ∃ part ∈ parts, Inside part unit) ∧
        ∃ first ∈ parts, ∃ second ∈ parts, first.1 ≠ second.1 ∧
          Within first (b, h) ∧ Within second (b, h) := by
  rw [restricts.full_iff wf]
  refine and_congr_right fun covered => ?_
  have taken := (restricts.full_iff wf).mpr covered
  constructor
  · intro split
    cases t with
    | free => simp [full] at taken
    | used => exact absurd rfl split
    | node left right =>
        obtain ⟨first, one, second, two, different⟩ := two_parts (b := b) wf taken
        exact ⟨first, restricts.1 _ one, second, restricts.1 _ two, different,
          block_bounds one, block_bounds two⟩
  · rintro ⟨first, one, second, two, different, low, high⟩ rfl
    have same := restricts.within one low
    have other := restricts.within two high
    rw [blocks_used, List.mem_singleton] at same other
    exact different (by rw [same, other])

end Restricts

end Buddy

end Sealloc.Library
