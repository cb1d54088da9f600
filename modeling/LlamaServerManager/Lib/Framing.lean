import Mathlib.Data.List.Basic

/-!
Sequences cut at a separator: the pieces that a separator ends, and what follows the
last separator. A sequence that arrives in parts is cut part by part
(`frames_append`): what follows the last separator is put before the next part.
-/

namespace LlamaServerManager.Lib.Framing

variable {α : Type} [DecidableEq α] (sep : α)

/-- The pieces that a separator ends, and the tail. -/
def frames : List α → List (List α) × List α
  | [] => ([], [])
  | a :: as =>
    if a = sep then ([] :: (frames as).1, (frames as).2)
    else
      match frames as with
      | ([], tail) => ([], a :: tail)
      | (piece :: pieces, tail) => ((a :: piece) :: pieces, tail)

variable {sep}

@[simp] theorem frames_nil : frames sep ([] : List α) = ([], []) := rfl

@[simp] theorem frames_sep (as : List α) :
    frames sep (sep :: as) = ([] :: (frames sep as).1, (frames sep as).2) := if_pos rfl

theorem frames_append (as bs : List α) :
    frames sep (as ++ bs) =
      ((frames sep as).1 ++ (frames sep ((frames sep as).2 ++ bs)).1,
        (frames sep ((frames sep as).2 ++ bs)).2) := by
  induction as with
  | nil => simp
  | cons a as ih =>
    by_cases ends : a = sep
    · subst ends
      simp [ih]
    · rw [List.cons_append, frames, if_neg ends, ih]
      conv => rhs; rw [frames, if_neg ends]
      rcases frames sep as with ⟨_ | ⟨piece, pieces⟩, tail⟩
      · simp [frames, ends]
      · simp

theorem frames_of_notMem {as : List α} (free : sep ∉ as) : frames sep as = ([], as) := by
  induction as with
  | nil => rfl
  | cons a as ih =>
    obtain ⟨ne, free⟩ : sep ≠ a ∧ sep ∉ as := by simpa using free
    rw [frames, if_neg ne.symm, ih free]

/-- A piece and its separator. -/
theorem frames_piece {piece : List α} (free : sep ∉ piece) :
    frames sep (piece ++ [sep]) = ([piece], []) := by
  rw [frames_append, frames_of_notMem free]
  induction piece with
  | nil => simp
  | cons a piece ih =>
    obtain ⟨ne, free⟩ : sep ≠ a ∧ sep ∉ piece := by simpa using free
    obtain ⟨pieces, tail⟩ := Prod.mk.inj (ih free)
    simp only [List.nil_append] at pieces
    have inner : frames sep (piece ++ [sep]) = ([piece], []) := Prod.ext pieces tail
    simp [frames, ne.symm, inner]

theorem tail_notMem (as : List α) : sep ∉ (frames sep as).2 := by
  induction as with
  | nil => simp
  | cons a as ih =>
    by_cases ends : a = sep
    · subst ends
      simpa using ih
    · rw [frames, if_neg ends]
      revert ih
      rcases frames sep as with ⟨_ | ⟨piece, pieces⟩, tail⟩
      · simp [@eq_comm _ sep, ends]
      · exact fun ih => ih

/-- Cutting at every separator gives the pieces and the tail. -/
theorem splitOn_eq (as : List α) : as.splitOn sep = (frames sep as).1 ++ [(frames sep as).2] := by
  induction as with
  | nil => rfl
  | cons a as ih =>
    by_cases ends : a = sep
    · subst ends
      simp [List.splitOn, List.splitOnP_cons_eq_if_modifyHead, ← ih]
    · rw [frames, if_neg ends]
      have rest : (a :: as).splitOn sep = (as.splitOn sep).modifyHead (a :: ·) := by
        simp [List.splitOn, List.splitOnP_cons_eq_if_modifyHead, ends]
      rw [rest, ih]
      rcases frames sep as with ⟨_ | ⟨piece, pieces⟩, tail⟩ <;> rfl

/-! ### The last separator -/

/-- The position of the last separator. -/
def rposition (sep : α) : List α → Option Nat
  | [] => none
  | a :: as =>
    match rposition sep as with
    | some i => some (i + 1)
    | none => if a = sep then some 0 else none

theorem rposition_none {as : List α} (h : rposition sep as = none) : sep ∉ as := by
  induction as with
  | nil => simp
  | cons a as ih =>
    unfold rposition at h
    cases last : rposition sep as with
    | some i => simp [last] at h
    | none =>
      simp only [last, ite_eq_right_iff, reduceCtorEq, imp_false] at h
      simp [ih last, @eq_comm _ sep, h]

theorem rposition_some {as : List α} {i : Nat} (h : rposition sep as = some i) :
    ∃ front back, as = front ++ [sep] ++ back ∧ front.length = i ∧ sep ∉ back := by
  induction as generalizing i with
  | nil => cases h
  | cons a as ih =>
    unfold rposition at h
    cases last : rposition sep as with
    | some j =>
      obtain rfl : j + 1 = i := by simpa [last] using h
      obtain ⟨front, back, rfl, rfl, free⟩ := ih last
      exact ⟨a :: front, back, rfl, rfl, free⟩
    | none =>
      obtain ⟨rfl, rfl⟩ : a = sep ∧ 0 = i := by simpa [last] using h
      exact ⟨[], as, rfl, rfl, rposition_none last⟩

/-- Up to the last separator every piece is ended, and the tail follows it. -/
theorem frames_rposition {as : List α} {i : Nat} (h : rposition sep as = some i) :
    frames sep (as.take (i + 1)) = ((frames sep as).1, []) ∧
      (frames sep as).2 = as.drop (i + 1) := by
  obtain ⟨front, back, rfl, rfl, free⟩ := rposition_some h
  have length : front.length + 1 = (front ++ [sep]).length := by simp
  have closed : (frames sep (front ++ [sep])).2 = [] := by
    rw [frames_append, frames_piece (tail_notMem front)]
  have whole : frames sep (front ++ [sep] ++ back) = _ := frames_append (front ++ [sep]) back
  rw [closed, List.nil_append, frames_of_notMem free, List.append_nil] at whole
  rw [length, List.take_left, List.drop_left, whole]
  exact ⟨Prod.ext rfl closed, rfl⟩

end LlamaServerManager.Lib.Framing
