import Mathlib.Tactic

/-! Doubly linked lists in memory and the sequences they store.

`fd` and `bk` give each cell the cell after and before it. A chain is followed from its
first cell along `fd`. -/

namespace Sealloc.Library

variable {α : Type}

/-- The cells from `first` on are those of the list, each of them knows the cell before it,
and the last one ends the walk. -/
def Chain (fd bk : α → Option α) : Option α → Option α → List α → Prop
  | _, first, [] => first = none
  | before, first, x :: xs => first = some x ∧ bk x = before ∧ Chain fd bk (some x) (fd x) xs

/-- Following `fd` from `first` gives the cells of the list and then ends. -/
def Walks (fd : α → Option α) : Option α → List α → Prop
  | first, [] => first = none
  | first, x :: xs => first = some x ∧ Walks fd (fd x) xs

variable {fd bk fd' bk' : α → Option α} {before first : Option α} {xs : List α} {x y : α}

namespace Chain

theorem first_eq (chain : Chain fd bk before first xs) : first = xs.head? := by
  cases xs with
  | nil => exact chain
  | cons x xs => exact chain.1

theorem walks (chain : Chain fd bk before first xs) : Walks fd first xs := by
  induction xs generalizing before first with
  | nil => exact chain
  | cons x xs ih => exact ⟨chain.1, ih chain.2.2⟩

/-- A chain is a matter of its own cells. -/
theorem congr (chain : Chain fd bk before first xs) (fds : ∀ x ∈ xs, fd' x = fd x)
    (bks : ∀ x ∈ xs, bk' x = bk x) : Chain fd' bk' before first xs := by
  induction xs generalizing before first with
  | nil => exact chain
  | cons x xs ih =>
      rcases chain with ⟨rfl, back, rest⟩
      refine ⟨rfl, ?_, ?_⟩
      · rw [bks x (List.mem_cons_self ..)]
        exact back
      · rw [fds x (List.mem_cons_self ..)]
        apply ih rest
        · intro y member
          exact fds y (List.mem_cons_of_mem x member)
        · intro y member
          exact bks y (List.mem_cons_of_mem x member)

/-- The cell before a cell is the one before the chain or one of the chain. -/
theorem prev_cases (chain : Chain fd bk before first xs) (nodup : xs.Nodup) (member : y ∈ xs) :
    (first = some y ∧ bk y = before) ∨ (first ≠ some y ∧ ∃ x ∈ xs, bk y = some x) := by
  induction xs generalizing before first with
  | nil => exact absurd member List.not_mem_nil
  | cons x xs ih =>
      rcases chain with ⟨rfl, back, rest⟩
      rcases List.mem_cons.mp member with rfl | later
      · exact Or.inl ⟨rfl, back⟩
      · have different : x ≠ y := by
          rintro rfl
          exact (List.nodup_cons.mp nodup).1 later
        refine Or.inr ⟨fun same => different (Option.some.inj same), ?_⟩
        rcases ih rest (List.nodup_cons.mp nodup).2 later with ⟨-, previous⟩ | ⟨-, z, inside, previous⟩
        · exact ⟨x, List.mem_cons_self .., previous⟩
        · exact ⟨z, List.mem_cons_of_mem x inside, previous⟩

/-- The cell after a cell is a later one of the chain. -/
theorem next_mem (chain : Chain fd bk before first xs) (member : x ∈ xs) (step : fd x = some y) :
    y ∈ xs := by
  induction xs generalizing before first with
  | nil => exact absurd member List.not_mem_nil
  | cons z xs ih =>
      rcases chain with ⟨rfl, -, rest⟩
      rcases List.mem_cons.mp member with rfl | later
      · have head := rest.first_eq
        rw [step] at head
        exact List.mem_cons_of_mem x (List.mem_of_mem_head? head.symm)
      · exact List.mem_cons_of_mem z (ih rest later)

theorem no_loop (chain : Chain fd bk before first xs) (nodup : xs.Nodup) (member : x ∈ xs) :
    fd x ≠ some x := by
  induction xs generalizing before first with
  | nil => exact absurd member List.not_mem_nil
  | cons z xs ih =>
      rcases chain with ⟨rfl, -, rest⟩
      rcases List.nodup_cons.mp nodup with ⟨fresh, nodup'⟩
      rcases List.mem_cons.mp member with rfl | later
      · intro step
        have head := rest.first_eq
        rw [step] at head
        exact fresh (List.mem_of_mem_head? head.symm)
      · exact ih rest nodup' later

/-- Among the cells of a chain the two links are inverse to each other. -/
theorem fd_iff_bk (chain : Chain fd bk before first xs) (nodup : xs.Nodup)
    (outside : ∀ b, before = some b → b ∉ xs) (memberX : x ∈ xs) (memberY : y ∈ xs) :
    fd x = some y ↔ bk y = some x := by
  induction xs generalizing before first with
  | nil => exact absurd memberX List.not_mem_nil
  | cons z xs ih =>
      rcases chain with ⟨rfl, back, rest⟩
      rcases List.nodup_cons.mp nodup with ⟨fresh, nodup'⟩
      have outside' : ∀ b, some z = some b → b ∉ xs := by
        intro b same
        rw [← Option.some.inj same]
        exact fresh
      rcases List.mem_cons.mp memberY with rfl | laterY
      · have noLoop : fd x ≠ some y := by
          intro step
          rcases List.mem_cons.mp memberX with rfl | laterX
          · have head := rest.first_eq
            rw [step] at head
            exact fresh (List.mem_of_mem_head? head.symm)
          · exact fresh (rest.next_mem laterX step)
        have noBack : bk y ≠ some x := by
          intro step
          rw [back] at step
          exact outside x step memberX
        exact iff_of_false noLoop noBack
      · rcases List.mem_cons.mp memberX with rfl | laterX
        · rcases rest.prev_cases nodup' laterY with ⟨head, previous⟩ | ⟨notHead, b, inside, previous⟩
          · exact iff_of_true head previous
          · refine iff_of_false notHead ?_
            intro same
            rw [previous] at same
            rw [Option.some.inj same] at inside
            exact fresh inside
        · exact ih rest nodup' outside' laterX laterY

theorem push [DecidableEq α] (chain : Chain fd bk none first xs) (nodup : xs.Nodup)
    (fresh : x ∉ xs) (fdX : fd' x = first) (bkX : bk' x = none)
    (fds : ∀ y ∈ xs, fd' y = fd y)
    (bks : ∀ y ∈ xs, bk' y = if first = some y then some x else bk y) :
    Chain fd' bk' none (some x) (x :: xs) := by
  refine ⟨rfl, bkX, ?_⟩
  rw [fdX]
  cases xs with
  | nil => exact chain
  | cons y ys =>
      rcases chain with ⟨rfl, -, rest⟩
      refine ⟨rfl, ?_, ?_⟩
      · rw [bks y (List.mem_cons_self ..), if_pos rfl]
      · rw [fds y (List.mem_cons_self ..)]
        apply rest.congr
        · intro z member
          exact fds z (List.mem_cons_of_mem y member)
        · intro z member
          rw [bks z (List.mem_cons_of_mem y member), if_neg]
          intro same
          rw [Option.some.inj same] at nodup
          exact (List.nodup_cons.mp nodup).1 member

/-- Joining the neighbours of a cell takes it out of the chain. -/
theorem erase [DecidableEq α] (chain : Chain fd bk before first xs) (nodup : xs.Nodup)
    (outside : ∀ b, before = some b → b ∉ xs) (member : x ∈ xs)
    (fds : ∀ y ∈ xs, y ≠ x → fd' y = if bk x = some y then fd x else fd y)
    (bks : ∀ y ∈ xs, y ≠ x → bk' y = if fd x = some y then bk x else bk y) :
    Chain fd' bk' before (if first = some x then fd x else first) (xs.erase x) := by
  induction xs generalizing before first with
  | nil => exact absurd member List.not_mem_nil
  | cons z xs ih =>
      have links := chain
      rcases chain with ⟨rfl, back, rest⟩
      rcases List.nodup_cons.mp nodup with ⟨fresh, nodup'⟩
      by_cases same : z = x
      · subst same
        rw [if_pos rfl, List.erase_cons_head]
        have keepFd : ∀ y ∈ xs, fd' y = fd y := by
          intro y inside
          have different : y ≠ z := fun equal => fresh (equal ▸ inside)
          rw [fds y (List.mem_cons_of_mem z inside) different, if_neg]
          intro previous
          rw [back] at previous
          exact outside y previous (List.mem_cons_of_mem z inside)
        cases xs with
        | nil => exact rest
        | cons y ys =>
            rcases rest with ⟨next, -, rest⟩
            have inside : y ∈ z :: y :: ys := List.mem_cons_of_mem z (List.mem_cons_self ..)
            have different : y ≠ z := fun equal => fresh (equal ▸ List.mem_cons_self ..)
            refine ⟨next, ?_, ?_⟩
            · rw [bks y inside different, if_pos next]
              exact back
            · rw [keepFd y (List.mem_cons_self ..)]
              apply rest.congr
              · intro w member
                exact keepFd w (List.mem_cons_of_mem y member)
              · intro w member
                have later : w ∈ y :: ys := List.mem_cons_of_mem y member
                have other : w ≠ z := fun equal => fresh (equal ▸ later)
                rw [bks w (List.mem_cons_of_mem z later) other, if_neg]
                intro step
                rw [next] at step
                rw [Option.some.inj step] at nodup'
                exact (List.nodup_cons.mp nodup').1 member
      · have later : x ∈ xs := (List.mem_cons.mp member).resolve_left (Ne.symm same)
        have notFirst : (some z : Option α) ≠ some x := fun equal => same (Option.some.inj equal)
        have notTail : (z == x) = false := beq_eq_false_iff_ne.mpr same
        have inverse := links.fd_iff_bk nodup outside (List.mem_cons_self ..) member
        have outside' : ∀ b, some z = some b → b ∉ xs := by
          intro b equal
          rw [← Option.some.inj equal]
          exact fresh
        rw [if_neg notFirst, List.erase_cons_tail (by rw [notTail]; exact Bool.false_ne_true)]
        refine ⟨rfl, ?_, ?_⟩
        · rw [bks z (List.mem_cons_self ..) same, if_neg]
          · exact back
          · intro step
            exact fresh (rest.next_mem later step)
        · have inherit := ih rest nodup' outside' later
            (fun y inside => fds y (List.mem_cons_of_mem z inside))
            (fun y inside => bks y (List.mem_cons_of_mem z inside))
          rw [fds z (List.mem_cons_self ..) same]
          by_cases step : fd z = some x
          · rw [if_pos step] at inherit
            rw [if_pos (inverse.mp step)]
            exact inherit
          · rw [if_neg step] at inherit
            rw [if_neg (fun previous => step (inverse.mpr previous))]
            exact inherit

end Chain

end Sealloc.Library
