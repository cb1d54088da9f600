import Mathlib.Data.List.Perm.Basic

/-!
Tables that keep a running total per group. A table is a tally of a set when the
entry of each group is the fold over the members of the set that belong to it,
in any order. Adding a member updates one entry; dropping whole groups drops
their members. Read-modify-write tables are shown correct by carrying `Tallies`
through each of their updates.
-/

namespace LlamaServerManager.Lib

section

variable {ρ γ β : Type}

/-- The list has each member of the group once. -/
structure Enumerates (C : ρ → Prop) (key : ρ → γ) (g : γ) (rs : List ρ) : Prop where
  nodup : rs.Nodup
  mem : ∀ r, r ∈ rs ↔ C r ∧ key r = g

/-- The fold over a group, if it has members. -/
def tally (empty : β) (add : ρ → β → β) (rs : List ρ) : Option β :=
  match rs with
  | [] => none
  | r :: rs => some ((r :: rs).foldl (fun total r => add r total) empty)

/-- The entries of the table are the folds over the groups of `C`. -/
def Tallies (empty : β) (add : ρ → β → β) (key : ρ → γ) (table : γ → Option β)
    (C : ρ → Prop) : Prop :=
  ∀ g rs, Enumerates C key g rs → table g = tally empty add rs

/-- The order of the members does not matter. -/
def Commutes (add : ρ → β → β) (C : ρ → Prop) : Prop :=
  ∀ r r', C r → C r' → ∀ total, add r (add r' total) = add r' (add r total)

end

namespace Tallies

variable {ρ γ β : Type} {empty : β} {add : ρ → β → β} {key : ρ → γ} {table table' : γ → Option β}
  {C C' : ρ → Prop}

theorem nothing : Tallies empty add key (fun _ => none) (fun _ => False) := by
  intro g rs enumerates
  cases rs with
  | nil => rfl
  | cons r rs => exact absurd ((enumerates.mem r).mp List.mem_cons_self).1 not_false

theorem congr (h : Tallies empty add key table C) (same : ∀ r, C' r ↔ C r) :
    Tallies empty add key table C' := by
  intro g rs enumerates
  exact h g rs ⟨enumerates.nodup, fun r => by rw [enumerates.mem, same]⟩

/-- A new member is added to the entry of its group. -/
theorem insert [DecidableEq ρ] [DecidableEq γ] (h : Tallies empty add key table C) {r : ρ}
    (new : ¬ C r) (commutes : Commutes add fun x => C x ∨ x = r)
    (updated : ∀ g, table' g =
      if g = key r then some (add r ((table g).getD empty)) else table g) :
    Tallies empty add key table' fun x => C x ∨ x = r := by
  intro g rs enumerates
  rw [updated]
  split
  · next is =>
      subst is
      have listed : r ∈ rs := (enumerates.mem r).mpr ⟨.inr rfl, rfl⟩
      have rest : Enumerates C key (key r) (rs.erase r) := by
        refine ⟨enumerates.nodup.erase r, fun x => ?_⟩
        rw [enumerates.nodup.mem_erase_iff, enumerates.mem]
        constructor
        · rintro ⟨ne, is | same, group⟩
          · exact ⟨is, group⟩
          · exact absurd same ne
        · rintro ⟨is, group⟩
          exact ⟨fun same => new (same ▸ is), .inl is, group⟩
      have moved : rs.Perm (rs.erase r ++ [r]) :=
        (List.perm_cons_erase listed).trans (List.perm_append_singleton r _).symm
      have fold : rs.foldl (fun total r => add r total) empty =
          add r ((rs.erase r).foldl (fun total r => add r total) empty) := by
        rw [moved.foldl_eq' (fun x hx y hy total =>
          commutes y x ((enumerates.mem y).mp hy).1 ((enumerates.mem x).mp hx).1 total),
          List.foldl_append]
        rfl
      have before : (table (key r)).getD empty =
          (rs.erase r).foldl (fun total r => add r total) empty := by
        rw [h (key r) _ rest]
        cases rs.erase r with
        | nil => rfl
        | cons x xs => rfl
      rw [before, ← fold]
      cases rs with
      | nil => cases listed
      | cons x xs => rfl
  · next other =>
      refine h g rs ⟨enumerates.nodup, fun x => ?_⟩
      rw [enumerates.mem]
      constructor
      · rintro ⟨is | same, group⟩
        · exact ⟨is, group⟩
        · exact absurd (same ▸ group).symm other
      · rintro ⟨is, group⟩
        exact ⟨.inl is, group⟩

/-- Whole groups are dropped. -/
theorem filter (h : Tallies empty add key table C) (keep : γ → Bool)
    (filtered : ∀ g, table' g = if keep g then table g else none) :
    Tallies empty add key table' fun x => C x ∧ keep (key x) = true := by
  intro g rs enumerates
  rw [filtered]
  split
  · next kept =>
      refine h g rs ⟨enumerates.nodup, fun x => ?_⟩
      rw [enumerates.mem]
      constructor
      · rintro ⟨⟨is, -⟩, group⟩
        exact ⟨is, group⟩
      · rintro ⟨is, group⟩
        exact ⟨⟨is, group ▸ kept⟩, group⟩
  · next dropped =>
      cases rs with
      | nil => rfl
      | cons x xs =>
        obtain ⟨⟨-, kept⟩, group⟩ := (enumerates.mem x).mp List.mem_cons_self
        rw [group] at kept
        exact absurd kept dropped

end Tallies

end LlamaServerManager.Lib
