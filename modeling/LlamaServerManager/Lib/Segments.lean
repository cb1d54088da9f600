import Mathlib.Data.List.Basic

/-!
Lists of segments, joined with a separator. Where no segment has the separator, the joined list
says what the segments are; and one list of segments begins another exactly if its text, up to
a separator or the end, begins the other's.
-/

namespace LlamaServerManager.Lib.Segments

variable {α : Type} {sep : α} {a b : List (List α)}

theorem intercalate_append (sep : α) {a b : List (List α)} (first : a ≠ []) (last : b ≠ []) :
    [sep].intercalate (a ++ b) = [sep].intercalate a ++ sep :: [sep].intercalate b := by
  induction a with
  | nil => exact absurd rfl first
  | cons x a ih =>
    cases a with
    | nil =>
      obtain ⟨y, b, rfl⟩ := List.exists_cons_of_ne_nil last
      simp [List.intercalate_cons_cons]
    | cons y a =>
      have rest := ih (List.cons_ne_nil y a)
      simp only [List.cons_append] at rest ⊢
      rw [List.intercalate_cons_cons, List.intercalate_cons_cons, rest]
      simp

theorem intercalate_eq_nil (segments : ∀ s ∈ a, s ≠ []) :
    [sep].intercalate a = [] ↔ a = [] := by
  constructor
  · intro empty
    cases a with
    | nil => rfl
    | cons x a =>
      have nonempty := segments x List.mem_cons_self
      cases a with
      | nil => exact absurd (by simpa using empty) nonempty
      | cons y a => simp [List.intercalate_cons_cons] at empty
  · rintro rfl
    rfl

/-- The text begins with no separator. -/
theorem head_intercalate (segments : ∀ s ∈ a, s ≠ []) (free : ∀ s ∈ a, sep ∉ s) :
    ([sep].intercalate a).head? ≠ some sep := by
  cases a with
  | nil => simp
  | cons x a =>
    obtain ⟨c, x, rfl⟩ := List.exists_cons_of_ne_nil (segments x List.mem_cons_self)
    have other : c ≠ sep := by
      rintro rfl
      exact free _ List.mem_cons_self List.mem_cons_self
    cases a with
    | nil => simpa using other
    | cons y a => simpa [List.intercalate_cons_cons] using other

theorem mem_intercalate {c : α} (mem : c ∈ [sep].intercalate a) :
    c = sep ∨ ∃ s ∈ a, c ∈ s := by
  induction a with
  | nil => simp at mem
  | cons x a ih =>
    cases a with
    | nil => exact .inr ⟨x, List.mem_cons_self, by simpa using mem⟩
    | cons y a =>
      rw [List.intercalate_cons_cons] at mem
      rcases List.mem_append.mp mem with mem | mem
      · rcases List.mem_append.mp mem with mem | mem
        · exact .inr ⟨x, List.mem_cons_self, mem⟩
        · exact .inl (List.mem_singleton.mp mem)
      · rcases ih mem with mem | ⟨s, at_, mem⟩
        · exact .inl mem
        · exact .inr ⟨s, List.mem_cons_of_mem _ at_, mem⟩

theorem mem_intercalate_of_mem {s : List α} {c : α} (at_ : s ∈ a) (mem : c ∈ s) :
    c ∈ [sep].intercalate a := by
  induction a with
  | nil => cases at_
  | cons x a ih =>
    cases a with
    | nil =>
      obtain rfl := List.mem_singleton.mp at_
      simpa using mem
    | cons y a =>
      rw [List.intercalate_cons_cons]
      rcases List.mem_cons.mp at_ with rfl | at_
      · simp [mem]
      · exact List.mem_append_right _ (ih at_)

variable [DecidableEq α]

/-- No piece has the separator. -/
theorem not_mem_of_mem_splitOn {text s : List α} (mem : s ∈ text.splitOn sep) : sep ∉ s := by
  induction text generalizing s with
  | nil =>
    obtain rfl : s = [] := by simpa using mem
    simp
  | cons c text ih =>
    rw [List.splitOn_cons_eq_if_modifyHead] at mem
    split at mem
    · rcases List.mem_cons.mp mem with rfl | mem
      · simp
      · exact ih mem
    · rename_i other
      cases pieces : text.splitOn sep with
      | nil => exact absurd pieces (List.splitOn_ne_nil _ _)
      | cons first rest =>
        rw [pieces, List.modifyHead_cons] at mem
        rcases List.mem_cons.mp mem with rfl | mem
        · have free := @ih first (by rw [pieces]; exact List.mem_cons_self)
          have different : c ≠ sep := by simpa using other
          simp [free, different.symm]
        · exact ih (by rw [pieces]; exact List.mem_cons_of_mem _ mem)

theorem mem_of_mem_splitOn {text s : List α} (mem : s ∈ text.splitOn sep) : ∀ c ∈ s, c ∈ text := by
  intro c at_
  have whole := @mem_intercalate_of_mem α sep _ s c mem at_
  rwa [List.intercalate_splitOn] at whole

/-- **Beginnings of segments are beginnings of texts**, at a separator or the end. -/
theorem prefix_iff (freeA : ∀ s ∈ a, sep ∉ s) (freeB : ∀ s ∈ b, sep ∉ s) (first : a ≠ [])
    (last : b ≠ []) :
    a <+: b ↔ [sep].intercalate b = [sep].intercalate a ∨
      [sep].intercalate a ++ [sep] <+: [sep].intercalate b := by
  constructor
  · rintro ⟨rest, rfl⟩
    cases rest with
    | nil => exact .inl (by simp)
    | cons s rest =>
      refine .inr ⟨[sep].intercalate (s :: rest), ?_⟩
      rw [intercalate_append sep first (List.cons_ne_nil s rest)]
      simp
  · have split := List.splitOn_intercalate sep freeB last
    rintro (same | ⟨rest, whole⟩)
    · rw [same, List.splitOn_intercalate sep freeA first] at split
      exact split ▸ List.prefix_rfl
    · rw [← whole, List.append_assoc, List.singleton_append, List.splitOn_append_cons_self,
        List.splitOn_intercalate sep freeA first] at split
      exact ⟨_, split⟩

end LlamaServerManager.Lib.Segments
