import Mathlib.Data.List.Nodup

/-!
Tables whose rows have different keys.

* `Table` — rows of a type, by a key of them.
* `Table.upsert` — `INSERT … ON CONFLICT DO UPDATE`, where the key conflicts.
* `Table.mem_upsertAll` — a row is from before, or one of the new ones.
-/

namespace LlamaServerManager.Lib

universe u v

structure Table {α : Type u} {κ : Type v} (key : α → κ) where
  rows : List α
  nodup : (rows.map key).Nodup

namespace Table

variable {α : Type u} {κ : Type v} {key : α → κ} {table : Table key} {row : α} {rows : List α}

def empty : Table key := ⟨[], List.nodup_nil⟩

def filter (table : Table key) (p : α → Bool) : Table key where
  rows := table.rows.filter p
  nodup := table.nodup.sublist (List.filter_sublist.map key)

section Upsert

variable [DecidableEq κ]

def upsert (table : Table key) (row : α) : Table key where
  rows := table.rows.filter (fun old => key old ≠ key row) ++ [row]
  nodup := by
    rw [List.map_append, List.map_singleton]
    have kept : ((table.rows.filter fun old => key old ≠ key row).map key).Nodup :=
      table.nodup.sublist (List.filter_sublist.map key)
    refine kept.append (List.nodup_singleton _) ?_
    rw [List.disjoint_singleton]
    intro mem
    obtain ⟨old, mem, same⟩ := List.mem_map.mp mem
    exact of_decide_eq_true (List.mem_filter.mp mem).2 same

def upsertAll (table : Table key) (rows : List α) : Table key := rows.foldl upsert table

theorem mem_upsertAll (mem : row ∈ (table.upsertAll rows).rows) :
    row ∈ table.rows ∨ row ∈ rows := by
  unfold upsertAll at mem
  induction rows generalizing table with
  | nil => exact .inl mem
  | cons new rows ih =>
    obtain mem | mem := ih mem
    · obtain old | new := List.mem_append.mp mem
      · exact .inl (List.mem_filter.mp old).1
      · exact .inr (List.mem_cons.mpr (.inl (List.mem_singleton.mp new)))
    · exact .inr (List.mem_cons_of_mem _ mem)

end Upsert

end Table

end LlamaServerManager.Lib
