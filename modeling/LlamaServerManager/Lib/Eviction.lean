import Mathlib.Algebra.BigOperators.Group.List.Basic
import Mathlib.Algebra.GroupWithZero.Nat
import Mathlib.Data.List.Nodup

/-!
Evicting items in a given order until the rest fits a limit. Spared items stay;
what goes is the shortest run of the others, from the first one on, that makes
the rest fit, or all of them.
-/

namespace LlamaServerManager.Lib.Eviction

variable {α : Type} (size : α → Nat) (spared : α → Bool) (limit : Nat)

/-- The items that go, where `total` is what all items take. -/
def evict : List α → Nat → List α
  | [], _ => []
  | a :: items, total =>
    if total ≤ limit then []
    else if spared a then evict items total
    else a :: evict items (total - size a)

/-- What is left of a total. -/
def rest (total : Nat) (gone : List α) : Nat := total - (gone.map size).sum

@[simp] theorem rest_nil (total : Nat) : rest size total [] = total := rfl

@[simp] theorem rest_cons (total : Nat) (a : α) (gone : List α) :
    rest size total (a :: gone) = rest size (total - size a) gone := by
  simp [rest, Nat.sub_sub]

/-- The shortest run from the first candidate on that makes the rest fit, or all of them
where even that is not enough. -/
structure Shortest (total : Nat) (candidates gone : List α) : Prop where
  front : gone <+: candidates
  fits : rest size total gone ≤ limit ∨ gone = candidates
  least : ∀ shorter, shorter <+: candidates → rest size total shorter ≤ limit →
    gone.length ≤ shorter.length

variable {size spared limit}

theorem evict_shortest (items : List α) (total : Nat) :
    Shortest size limit total (items.filter fun a => !spared a)
      (evict size spared limit items total) := by
  induction items generalizing total with
  | nil => exact ⟨List.nil_prefix, .inr rfl, fun _ _ _ => Nat.zero_le _⟩
  | cons a items ih =>
    unfold evict
    split
    · rename_i enough
      exact ⟨List.nil_prefix, .inl enough, fun _ _ _ => Nat.zero_le _⟩
    · rename_i much
      split
      · rename_i stays
        simpa [stays] using ih total
      · rename_i goes
        obtain ⟨front, fits, least⟩ := ih (total - size a)
        rw [List.filter_cons_of_pos (by simpa using goes)]
        refine ⟨List.cons_prefix_cons.mpr ⟨rfl, front⟩, by simpa using fits, ?_⟩
        intro shorter isFront enough
        cases shorter with
        | nil => exact absurd enough much
        | cons b shorter =>
          obtain ⟨rfl, behind⟩ := List.cons_prefix_cons.mp isFront
          exact Nat.succ_le_succ (least shorter behind (by simpa using enough))

theorem evict_sublist (items : List α) (total : Nat) :
    (evict size spared limit items total).Sublist items :=
  (evict_shortest items total).front.sublist.trans List.filter_sublist

theorem spared_of_mem_evict {items : List α} {total : Nat} {a : α}
    (mem : a ∈ evict size spared limit items total) : spared a = false := by
  simpa using (List.mem_filter.mp ((evict_shortest items total).front.subset mem)).2

/-- What takes the rest are the items that stay. -/
theorem rest_eq_sum [DecidableEq α] {items gone : List α} (nodup : items.Nodup)
    (unique : gone.Nodup) (sub : gone ⊆ items) :
    rest size (items.map size).sum gone = ((items.filter fun a => a ∉ gone).map size).sum := by
  have counts : ∀ a ∈ gone, gone.count a ≤ items.count a := by
    intro a mem
    exact Nat.le_of_eq ((List.count_eq_one_of_mem unique mem).trans
      (List.count_eq_one_of_mem nodup (sub mem)).symm)
  have split : (gone ++ items.filter fun a => a ∉ gone).Perm items := by
    simpa [nodup.sdiff_eq_filter] using List.subperm_append_diff_self_of_count_le counts
  have sum := (split.map size).sum_eq
  rw [List.map_append, List.sum_append] at sum
  unfold rest
  omega

end LlamaServerManager.Lib.Eviction
