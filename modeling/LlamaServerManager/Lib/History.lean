import Mathlib.Data.List.Infix

/-!
Histories, the newest entry first. `Everywhere check log` says of every entry what `check` says
of it and of the entries before it, so a history that grows is checked at its new entries only.
-/

namespace LlamaServerManager.Lib.History

variable {α : Type*} {check : α → List α → Prop} {entry : α} {log : List α}

/-- Each entry of the log, the newest of which is first, passes the check against the
entries before it. -/
def Everywhere (check : α → List α → Prop) (log : List α) : Prop :=
  ∀ entry earlier, entry :: earlier <:+ log → check entry earlier

@[simp] theorem everywhere_nil : Everywhere check [] := fun _ _ inside => by simp at inside

@[simp] theorem everywhere_cons :
    Everywhere check (entry :: log) ↔ check entry log ∧ Everywhere check log := by
  constructor
  · intro all
    exact ⟨all _ _ (List.suffix_refl _), fun e earlier inside =>
      all e earlier (inside.trans (List.suffix_cons _ _))⟩
  · rintro ⟨first, rest⟩ e earlier inside
    rcases List.suffix_cons_iff.mp inside with same | inside
    · obtain ⟨rfl, rfl⟩ := List.cons.inj same
      exact first
    · exact rest e earlier inside

theorem Everywhere.of_append {newer : List α} (all : Everywhere check (newer ++ log)) :
    Everywhere check log := fun e earlier inside =>
  all e earlier (inside.trans (List.suffix_append _ _))

/-- Entries each of which is in order after the log and any of the others. -/
theorem everywhere_append {newer : List α}
    (each : ∀ entry ∈ newer, ∀ between, between ⊆ newer → check entry (between ++ log)) :
    Everywhere check (newer ++ log) ↔ Everywhere check log := by
  refine ⟨Everywhere.of_append, fun all => ?_⟩
  induction newer with
  | nil => exact all
  | cons entry newer ih =>
    obtain ⟨first, rest⟩ := List.forall_mem_cons.mp each
    have later := ih fun e mem between sub =>
      rest e mem between fun _ here => List.subset_cons_self _ _ (sub here)
    exact everywhere_cons.mpr ⟨first _ (List.subset_cons_self _ _), later⟩

end LlamaServerManager.Lib.History
