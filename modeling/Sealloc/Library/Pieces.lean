import Mathlib.Data.List.Basic

/-! A text cut at its separators, and what is appended to a text that ends with one. -/

namespace Sealloc.Library

variable {α : Type}

/-- The pieces between separators, the first of which starts with `cur`; the last one counts only
if it is not empty. -/
def piecesFrom (sep : α → Bool) : List α → List α → List (List α)
  | cur, [] => if cur.isEmpty then [] else [cur]
  | cur, c :: rest =>
      if sep c then cur :: piecesFrom sep [] rest else piecesFrom sep (cur ++ [c]) rest

def pieces (sep : α → Bool) (text : List α) : List (List α) := piecesFrom sep [] text

variable {sep : α → Bool}

theorem piecesFrom_nil (cur : List α) :
    piecesFrom sep cur [] = if cur.isEmpty then [] else [cur] := rfl

theorem piecesFrom_cons (cur : List α) (c : α) (rest : List α) :
    piecesFrom sep cur (c :: rest) =
      if sep c then cur :: piecesFrom sep [] rest else piecesFrom sep (cur ++ [c]) rest := rfl

theorem piecesFrom_plain {plain : List α} (none : ∀ c ∈ plain, sep c = false) (rest : List α) :
    ∀ cur, piecesFrom sep cur (plain ++ rest) = piecesFrom sep (cur ++ plain) rest := by
  induction plain with
  | nil =>
      intro cur
      rw [List.nil_append, List.append_nil]
  | cons c plain ih =>
      intro cur
      rw [List.forall_mem_cons] at none
      have inside : ¬ sep c = true := by simp [none.1]
      rw [List.cons_append, piecesFrom_cons, if_neg inside, ih none.2, List.append_assoc,
        List.singleton_append]

/-- A piece ends at the first separator. -/
theorem pieces_cons {plain : List α} {stop : α} (none : ∀ c ∈ plain, sep c = false)
    (stops : sep stop = true) (rest : List α) :
    pieces sep (plain ++ stop :: rest) = plain :: pieces sep rest := by
  unfold pieces
  rw [piecesFrom_plain none, List.nil_append, piecesFrom_cons, if_pos stops]

/-- The last piece needs no separator. -/
theorem pieces_single {plain : List α} (none : ∀ c ∈ plain, sep c = false) (some : plain ≠ []) :
    pieces sep plain = [plain] := by
  have whole := @piecesFrom_plain _ sep plain none [] []
  rw [List.append_nil, List.nil_append] at whole
  unfold pieces
  rw [whole, piecesFrom_nil, if_neg]
  simpa using some

theorem piecesFrom_append {stop : α} (stops : sep stop = true) (front rest : List α) :
    ∀ cur, piecesFrom sep cur (front ++ stop :: rest) =
      piecesFrom sep cur (front ++ [stop]) ++ piecesFrom sep [] rest := by
  induction front with
  | nil =>
      intro cur
      simp [piecesFrom_cons, piecesFrom_nil, stops]
  | cons c front ih =>
      intro cur
      simp only [List.cons_append, piecesFrom_cons]
      by_cases ends : sep c = true
      · rw [if_pos ends, if_pos ends, ih [], List.cons_append]
      · rw [if_neg ends, if_neg ends, ih]

/-- What follows a text that ends with a separator is cut by itself. -/
theorem pieces_append {front : List α} {stop : α} (stops : sep stop = true) (rest : List α) :
    pieces sep (front ++ [stop] ++ rest) = pieces sep (front ++ [stop]) ++ pieces sep rest := by
  unfold pieces
  rw [List.append_assoc, List.singleton_append, piecesFrom_append stops]

/-- Rows that each end with a separator are read back. -/
theorem pieces_rows {stop : α} (stops : sep stop = true) {rows : List (List α)}
    (plain : ∀ row ∈ rows, ∀ c ∈ row, sep c = false) :
    pieces sep (rows.flatMap fun row => row ++ [stop]) = rows := by
  induction rows with
  | nil => rfl
  | cons row rows ih =>
      rw [List.forall_mem_cons] at plain
      have step := @pieces_cons _ sep row stop plain.1 stops
        (rows.flatMap fun row => row ++ [stop])
      rw [ih plain.2] at step
      rw [List.flatMap_cons, List.append_assoc, List.singleton_append]
      exact step

end Sealloc.Library
