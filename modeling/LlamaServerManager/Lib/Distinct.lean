import Mathlib.Data.List.Nodup

/-!
The first of each key, in the order of a list.

* `keepNew` — one more, unless its key was there.
* `distinct` — what is kept of a list.
* `distinct_append` — what only repeats keys does not count.
-/

namespace LlamaServerManager.Lib

universe u v

variable {α : Type u} {κ : Type v} [DecidableEq κ] {key : α → κ} {kept l l' : List α} {a : α} {k : κ}

/-- Kept unless its key was. -/
def keepNew (key : α → κ) (kept : List α) (a : α) : List α :=
  if key a ∈ kept.map key then kept else kept ++ [a]

def distinct (key : α → κ) (l : List α) : List α := l.foldl (keepNew key) []

theorem keepNew_of_old (mem : key a ∈ kept.map key) : keepNew key kept a = kept := if_pos mem

theorem keepNew_of_new (new : key a ∉ kept.map key) : keepNew key kept a = kept ++ [a] :=
  if_neg new

theorem mem_keys_keepNew : k ∈ (keepNew key kept a).map key ↔ k ∈ kept.map key ∨ k = key a := by
  by_cases mem : key a ∈ kept.map key
  · rw [keepNew_of_old mem]
    exact ⟨.inl, fun h => h.elim id fun same => same ▸ mem⟩
  · rw [keepNew_of_new mem]
    simp

theorem mem_keys_foldl_keepNew :
    k ∈ (l.foldl (keepNew key) kept).map key ↔ k ∈ kept.map key ∨ k ∈ l.map key := by
  induction l generalizing kept with
  | nil => simp
  | cons a l ih =>
    rw [List.foldl_cons, ih, mem_keys_keepNew, List.map_cons, List.mem_cons, or_assoc]

theorem eq_nil_of_foldl_keepNew (nothing : l.foldl (keepNew key) kept = []) : kept = [] := by
  cases kept with
  | nil => rfl
  | cons a kept =>
    have mem : key a ∈ (l.foldl (keepNew key) (a :: kept)).map key :=
      mem_keys_foldl_keepNew.mpr (.inl List.mem_cons_self)
    rw [nothing] at mem
    cases mem

theorem nodup_foldl_keepNew (nodup : (kept.map key).Nodup) :
    ((l.foldl (keepNew key) kept).map key).Nodup := by
  induction l generalizing kept with
  | nil => exact nodup
  | cons a l ih =>
    rw [List.foldl_cons]
    apply ih
    by_cases mem : key a ∈ kept.map key
    · rwa [keepNew_of_old mem]
    · rw [keepNew_of_new mem, List.map_append, List.map_singleton]
      exact nodup.append (List.nodup_singleton _) (by simpa using mem)

theorem mem_of_mem_foldl_keepNew (mem : a ∈ l.foldl (keepNew key) kept) : a ∈ kept ∨ a ∈ l := by
  induction l generalizing kept with
  | nil => exact .inl mem
  | cons b l ih =>
    obtain before | after := ih mem
    · by_cases old : key b ∈ kept.map key
      · rw [keepNew_of_old old] at before
        exact .inl before
      · rw [keepNew_of_new old, List.mem_append, List.mem_singleton] at before
        exact before.imp id fun (same : a = b) => same ▸ List.mem_cons_self
    · exact .inr (List.mem_cons_of_mem _ after)

/-- What is kept of the keys of a kind does not depend on the others. -/
theorem filter_foldl_keepNew (p : κ → Bool) :
    (l.foldl (keepNew key) kept).filter (fun a => p (key a)) =
      (l.filter fun a => p (key a)).foldl (keepNew key) (kept.filter fun a => p (key a)) := by
  induction l generalizing kept with
  | nil => rfl
  | cons a l ih =>
    rw [List.foldl_cons, ih]
    cases kind : p (key a) with
    | false =>
      rw [List.filter_cons_of_neg (by simp [kind])]
      by_cases mem : key a ∈ kept.map key
      · rw [keepNew_of_old mem]
      · rw [keepNew_of_new mem, List.filter_append, List.filter_cons_of_neg (by simp [kind]),
          List.filter_nil, List.append_nil]
    | true =>
      rw [List.filter_cons_of_pos (by simp [kind]), List.foldl_cons]
      have same : key a ∈ (kept.filter fun a => p (key a)).map key ↔ key a ∈ kept.map key := by
        simp only [List.mem_map, List.mem_filter]
        constructor
        · rintro ⟨b, ⟨mem, -⟩, eq⟩
          exact ⟨b, mem, eq⟩
        · rintro ⟨b, mem, eq⟩
          exact ⟨b, ⟨mem, eq ▸ kind⟩, eq⟩
      by_cases mem : key a ∈ kept.map key
      · rw [keepNew_of_old mem, keepNew_of_old (same.mpr mem)]
      · rw [keepNew_of_new mem, keepNew_of_new fun h => mem (same.mp h), List.filter_append,
          List.filter_cons_of_pos (by simp [kind]), List.filter_nil]

theorem foldl_keepNew_of_subset (old : ∀ a ∈ l, key a ∈ kept.map key) :
    l.foldl (keepNew key) kept = kept := by
  induction l with
  | nil => rfl
  | cons a l ih =>
    rw [List.foldl_cons, keepNew_of_old (old a List.mem_cons_self)]
    exact ih fun b mem => old b (List.mem_cons_of_mem _ mem)

theorem foldl_keepNew_of_nodup (nodup : ((kept ++ l).map key).Nodup) :
    l.foldl (keepNew key) kept = kept ++ l := by
  induction l generalizing kept with
  | nil => simp
  | cons a l ih =>
    have new : key a ∉ kept.map key := by
      rw [List.map_append, List.map_cons] at nodup
      exact fun mem => (List.nodup_append.mp nodup).2.2 _ mem _ List.mem_cons_self rfl
    have shift : kept ++ a :: l = (kept ++ [a]) ++ l := by simp
    rw [List.foldl_cons, keepNew_of_new new, shift]
    exact ih (shift ▸ nodup)

theorem nodup_distinct : ((distinct key l).map key).Nodup := nodup_foldl_keepNew List.nodup_nil

theorem mem_of_mem_distinct (mem : a ∈ distinct key l) : a ∈ l :=
  (mem_of_mem_foldl_keepNew mem).resolve_left (List.not_mem_nil)

theorem filter_distinct (p : κ → Bool) :
    (distinct key l).filter (fun a => p (key a)) = distinct key (l.filter fun a => p (key a)) :=
  filter_foldl_keepNew p

/-- **What comes first is kept, and after it nothing that has its keys.** -/
theorem distinct_append (nodup : (l.map key).Nodup) (old : ∀ a ∈ l', key a ∈ l.map key) :
    distinct key (l ++ l') = l := by
  have front : l.foldl (keepNew key) [] = l := foldl_keepNew_of_nodup (by simpa using nodup)
  unfold distinct
  rw [List.foldl_append, front, foldl_keepNew_of_subset old]

end LlamaServerManager.Lib
