import Mathlib.Data.List.Perm.Basic

/-!
Assignments one after another, of which the last one counts.

* `lastAssigned` — what a list assigns.
* `lastAssigned_perm_iff` — it does not depend on the order if all of it is the same.
-/

namespace LlamaServerManager.Lib

universe u v

variable {α : Type u} {β : Type v} {f : α → Option β} {l l' : List α} {a : α} {x : β}

/-- What the last of those that assign something assigns. -/
def lastAssigned (f : α → Option β) (l : List α) : Option β := (l.filterMap f).getLast?

/-- Assigning to what was there before. -/
theorem foldl_assign (before : Option β) :
    l.foldl (fun value a => (f a).or value) before = (lastAssigned f l).or before := by
  unfold lastAssigned
  induction l generalizing before with
  | nil => rfl
  | cons a l ih =>
    rw [List.foldl_cons, ih]
    cases assigned : f a with
    | none => rw [List.filterMap_cons_none assigned, Option.none_or]
    | some x =>
      rw [List.filterMap_cons_some assigned, List.getLast?_cons]
      cases (l.filterMap f).getLast? <;> rfl

theorem lastAssigned_append_singleton (assigned : f a = some x) :
    lastAssigned f (l ++ [a]) = some x := by
  simp [lastAssigned, assigned]

theorem exists_of_lastAssigned (last : lastAssigned f l = some x) : ∃ a ∈ l, f a = some x :=
  List.mem_filterMap.mp (List.mem_of_getLast? last)

theorem lastAssigned_isSome (mem : a ∈ l) (assigned : f a = some x) :
    (lastAssigned f l).isSome := by
  have mem : x ∈ l.filterMap f := List.mem_filterMap.mpr ⟨a, mem, assigned⟩
  exact List.getLast?_isSome.mpr (List.ne_nil_of_mem mem)

/-- All that is assigned is the same. -/
def Unanimous (f : α → Option β) (l : List α) : Prop :=
  ∀ a ∈ l, ∀ b ∈ l, ∀ x y, f a = some x → f b = some y → x = y

theorem Unanimous.of_value (x : β) (values : ∀ a ∈ l, f a = none ∨ f a = some x) :
    Unanimous f l := by
  intro a mem b mem' y z assigned assigned'
  obtain none_ | same := values a mem
  · rw [none_] at assigned
    cases assigned
  · obtain none_ | same' := values b mem'
    · rw [none_] at assigned'
      cases assigned'
    · exact Option.some.inj ((assigned.symm.trans same).trans (same'.symm.trans assigned'))

theorem Unanimous.lastAssigned (unanimous : Unanimous f l) (mem : a ∈ l) (assigned : f a = some x) :
    lastAssigned f l = some x := by
  obtain ⟨y, last⟩ := Option.isSome_iff_exists.mp (lastAssigned_isSome mem assigned)
  obtain ⟨b, mem', assigned'⟩ := exists_of_lastAssigned last
  rw [last, unanimous b mem' a mem y x assigned' assigned]

/-- **The order does not matter if and only if** all that is assigned is the same. -/
theorem lastAssigned_perm_iff :
    (∀ l', l'.Perm l → lastAssigned f l' = lastAssigned f l) ↔ Unanimous f l := by
  constructor
  · -- Whatever is assigned may come last.
    have any : (∀ l', l'.Perm l → lastAssigned f l' = lastAssigned f l) → ∀ a ∈ l, ∀ x,
        f a = some x → lastAssigned f l = some x := by
      intro same a mem x assigned
      obtain ⟨front, back, rfl⟩ := List.append_of_mem mem
      have moved : (front ++ back ++ [a]).Perm (front ++ a :: back) :=
        List.perm_append_singleton a _ |>.trans List.perm_middle.symm
      rw [← same _ moved]
      exact lastAssigned_append_singleton assigned
    intro same a mem b mem' x y assigned assigned'
    exact Option.some.inj ((any same a mem x assigned).symm.trans (any same b mem' y assigned'))
  · intro unanimous l' perm
    cases last : lastAssigned f l' with
    | some x =>
      obtain ⟨a, mem, assigned⟩ := exists_of_lastAssigned last
      exact (unanimous.lastAssigned (perm.mem_iff.mp mem) assigned).symm
    | none =>
      cases last' : lastAssigned f l with
      | none => rfl
      | some x =>
        obtain ⟨a, mem, assigned⟩ := exists_of_lastAssigned last'
        have some_ := lastAssigned_isSome (perm.mem_iff.mpr mem) assigned
        rw [last] at some_
        cases some_

end LlamaServerManager.Lib
