import Mathlib.Data.List.Basic

/-!
A set kept as an ascending list, as `BTreeSet` iterates over it. What a set holds
does not depend on the order, so the membership lemmas ask nothing of `<`.
-/

namespace LlamaServerManager.Lib.SortedSet

variable {α : Type*} [DecidableEq α] [LT α] [DecidableLT α]

/-- `BTreeSet::insert`. -/
def insert (x : α) : List α → List α
  | [] => [x]
  | y :: ys => if x = y then y :: ys else if x < y then x :: y :: ys else y :: insert x ys

@[simp] theorem mem_insert {x z : α} {ys : List α} : z ∈ insert x ys ↔ z = x ∨ z ∈ ys := by
  induction ys with
  | nil => simp [insert]
  | cons y ys ih =>
    unfold insert
    split
    · rename_i same
      subst same
      simp
    · split
      · simp
      · simp only [List.mem_cons, ih]
        tauto

theorem subset_insert (x : α) (ys : List α) : ys ⊆ insert x ys :=
  fun _ mem => mem_insert.mpr (.inr mem)

/-- `BTreeSet::extend`: the values are inserted one after the other. -/
def insertAll (xs ys : List α) : List α := xs.foldl (fun acc x => insert x acc) ys

@[simp] theorem mem_insertAll {xs ys : List α} {z : α} :
    z ∈ insertAll xs ys ↔ z ∈ xs ∨ z ∈ ys := by
  unfold insertAll
  induction xs generalizing ys with
  | nil => simp
  | cons x xs ih =>
    simp only [List.foldl_cons, ih, mem_insert, List.mem_cons]
    tauto

end LlamaServerManager.Lib.SortedSet
