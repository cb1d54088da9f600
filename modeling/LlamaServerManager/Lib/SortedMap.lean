import Mathlib.Data.List.Sort

/-!
A map kept as a list with ascending keys, as `BTreeMap` iterates over it. Maps
with the same lookups are the same (`SortedMap.ext_lookup`), so what a sequence
of updates leaves is known from what it leaves at each key.
-/

namespace LlamaServerManager.Lib

universe u v

/-- A `BTreeMap`: the entries are in the order of their keys, and no key is there twice. -/
@[ext] structure SortedMap (κ : Type u) (β : Type v) [LinearOrder κ] where
  entries : List (κ × β) := []
  sorted : entries.Pairwise fun a b => a.1 < b.1 := by exact List.Pairwise.nil

namespace SortedMap

variable {κ : Type u} {β : Type v} [LinearOrder κ]

/-- `get`. -/
def lookup (m : SortedMap κ β) (key : κ) : Option β := m.entries.lookup key

/-- The list with the value at a key replaced, or with a new entry in its place. -/
def updateEntries (key : κ) (f : Option β → β) : List (κ × β) → List (κ × β)
  | [] => [(key, f none)]
  | (other, value) :: rest =>
    if key < other then (key, f none) :: (other, value) :: rest
    else if key = other then (key, f (some value)) :: rest
    else (other, value) :: updateEntries key f rest

theorem mem_updateEntries {key : κ} {f : Option β → β} {entries : List (κ × β)} {e : κ × β}
    (mem : e ∈ updateEntries key f entries) : e.1 = key ∨ e ∈ entries := by
  induction entries with
  | nil => simp_all [updateEntries]
  | cons head rest ih =>
    obtain ⟨other, value⟩ := head
    unfold updateEntries at mem
    split at mem
    · rcases List.mem_cons.mp mem with rfl | mem
      · exact .inl rfl
      · exact .inr mem
    · split at mem
      · rcases List.mem_cons.mp mem with rfl | mem
        · exact .inl rfl
        · exact .inr (List.mem_cons_of_mem _ mem)
      · rcases List.mem_cons.mp mem with rfl | mem
        · exact .inr List.mem_cons_self
        · exact (ih mem).imp_right (List.mem_cons_of_mem _)

theorem updateEntries_sorted {key : κ} {f : Option β → β} {entries : List (κ × β)}
    (sorted : entries.Pairwise fun a b => a.1 < b.1) :
    (updateEntries key f entries).Pairwise fun a b => a.1 < b.1 := by
  induction entries with
  | nil => simp [updateEntries]
  | cons head rest ih =>
    obtain ⟨other, value⟩ := head
    have above := (List.pairwise_cons.mp sorted).1
    unfold updateEntries
    split
    · rename_i before
      refine List.pairwise_cons.mpr ⟨?_, sorted⟩
      intro e mem
      rcases List.mem_cons.mp mem with rfl | mem
      · exact before
      · exact before.trans (above e mem)
    · split
      · rename_i same
        subst same
        exact List.pairwise_cons.mpr ⟨above, (List.pairwise_cons.mp sorted).2⟩
      · rename_i notBefore ne
        refine List.pairwise_cons.mpr ⟨?_, ih (List.pairwise_cons.mp sorted).2⟩
        intro e mem
        rcases mem_updateEntries mem with rfl | mem
        · exact lt_of_le_of_ne (not_lt.mp notBefore) (Ne.symm ne)
        · exact above e mem

/-- `entry(key)` and what becomes of the value there. -/
def update (m : SortedMap κ β) (key : κ) (f : Option β → β) : SortedMap κ β where
  entries := updateEntries key f m.entries
  sorted := updateEntries_sorted m.sorted

/-! ### Lookups -/

theorem lookup_eq_none_of_below {key : κ} {entries : List (κ × β)}
    (above : ∀ e ∈ entries, key < e.1) : entries.lookup key = none := by
  rw [List.lookup_eq_none_iff]
  intro e mem
  simpa using (above e mem).ne

@[simp] theorem lookup_update_self (m : SortedMap κ β) (key : κ) (f : Option β → β) :
    (m.update key f).lookup key = some (f (m.lookup key)) := by
  obtain ⟨entries, sorted⟩ := m
  simp only [lookup, update]
  induction entries with
  | nil => simp [updateEntries]
  | cons head rest ih =>
    obtain ⟨other, value⟩ := head
    have above := (List.pairwise_cons.mp sorted).1
    have later := ih (List.pairwise_cons.mp sorted).2
    unfold updateEntries
    split
    · rename_i before
      have absent : ((other, value) :: rest).lookup key = none := by
        refine lookup_eq_none_of_below fun e mem => ?_
        rcases List.mem_cons.mp mem with rfl | mem
        · exact before
        · exact before.trans (above e mem)
      simp [absent]
    · split
      · rename_i same
        subst same
        simp
      · rename_i ne
        have differs : (key == other) = false := by simpa using ne
        simpa [List.lookup_cons, differs] using later

@[simp] theorem lookup_update_ne (m : SortedMap κ β) {key other : κ} (f : Option β → β)
    (ne : other ≠ key) : (m.update key f).lookup other = m.lookup other := by
  obtain ⟨entries, sorted⟩ := m
  simp only [lookup, update]
  induction entries with
  | nil =>
    have differs : (other == key) = false := by simpa using ne
    simp [updateEntries, List.lookup_cons, differs]
  | cons head rest ih =>
    obtain ⟨first, value⟩ := head
    have differs : (other == key) = false := by simpa using ne
    have later := ih (List.pairwise_cons.mp sorted).2
    unfold updateEntries
    split
    · simp [List.lookup_cons, differs]
    · split
      · rename_i same
        subst same
        simp [List.lookup_cons, differs]
      · simp only [List.lookup_cons, later]

theorem mem_entries {m : SortedMap κ β} {key : κ} {value : β} :
    (key, value) ∈ m.entries ↔ m.lookup key = some value := by
  obtain ⟨entries, sorted⟩ := m
  simp only [lookup]
  induction entries with
  | nil => simp
  | cons head rest ih =>
    obtain ⟨other, first⟩ := head
    have above := (List.pairwise_cons.mp sorted).1
    have later := ih (List.pairwise_cons.mp sorted).2
    rw [List.mem_cons, List.lookup_cons]
    by_cases same : key = other
    · subst same
      have absent : (key, value) ∉ rest := fun mem => lt_irrefl key (above (key, value) mem)
      simp [absent, eq_comm]
    · have differs : (key == other) = false := by simpa using same
      simp [differs, same, later]

/-- **Maps with the same lookups are the same.** -/
theorem ext_lookup {m n : SortedMap κ β} (same : ∀ key, m.lookup key = n.lookup key) : m = n := by
  have members : ∀ e : κ × β, e ∈ m.entries ↔ e ∈ n.entries := by
    rintro ⟨key, value⟩
    rw [mem_entries, mem_entries, same]
  have : Std.Irrefl fun a b : κ × β => a.1 < b.1 := ⟨fun a => lt_irrefl a.1⟩
  have : Std.Antisymm fun a b : κ × β => a.1 < b.1 :=
    ⟨fun a b before after => absurd (before.trans after) (lt_irrefl a.1)⟩
  exact SortedMap.ext (m.sorted.eq_of_mem_iff n.sorted members)

/-! ### Merging -/

/-- Each value of the other map is combined with what the map holds at its key. -/
def merge (m other : SortedMap κ β) (combine : Option β → β → β) : SortedMap κ β :=
  other.entries.foldl (fun m e => m.update e.1 fun before => combine before e.2) m

theorem lookup_merge (m other : SortedMap κ β) (combine : Option β → β → β) (key : κ) :
    (m.merge other combine).lookup key =
      match other.lookup key with
      | none => m.lookup key
      | some value => some (combine (m.lookup key) value) := by
  obtain ⟨entries, sorted⟩ := other
  simp only [merge, lookup]
  change lookup _ key = match entries.lookup key with
    | none => m.lookup key
    | some value => some (combine (m.lookup key) value)
  induction entries generalizing m with
  | nil => rfl
  | cons head rest ih =>
    obtain ⟨other, value⟩ := head
    have above := (List.pairwise_cons.mp sorted).1
    rw [List.foldl_cons, ih _ (List.pairwise_cons.mp sorted).2]
    by_cases same : key = other
    · subst same
      simp [lookup_eq_none_of_below above]
    · have differs : (key == other) = false := by simpa using same
      simp [List.lookup_cons, differs, lookup_update_ne _ _ same]

end SortedMap

end LlamaServerManager.Lib
