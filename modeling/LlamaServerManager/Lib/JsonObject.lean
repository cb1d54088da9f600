import LlamaServerManager.Lib.Json
import LlamaServerManager.Lib.SortedMap
import Mathlib.Data.String.Basic

/-!
Writing to the fields of a JSON object, whose fields `serde_json` keeps in the
order of their names. What a write leaves is known from the lookups.
-/

namespace LlamaServerManager.Lib.Json

abbrev Fields := List (String × Value)

/-- `Map::insert`. -/
def insertField (name : String) (value : Value) (fields : Fields) : Fields :=
  SortedMap.updateEntries name (fun _ => value) fields

/-- `Map::remove`. -/
def removeField (name : String) (fields : Fields) : Fields :=
  fields.filter fun field => field.1 != name

/-- `Map::get_mut` and an assignment. -/
def modifyField (name : String) (f : Value → Value) : Fields → Fields
  | [] => []
  | (key, value) :: fields =>
    if key = name then (key, f value) :: fields else (key, value) :: modifyField name f fields

variable {name other : String} {value : Value} {fields : Fields}

@[simp] theorem lookup_insertField_self :
    (insertField name value fields).lookup name = some value := by
  unfold insertField
  induction fields with
  | nil => simp [SortedMap.updateEntries]
  | cons field fields ih =>
    obtain ⟨first, old⟩ := field
    unfold SortedMap.updateEntries
    split
    · simp
    · split
      · simp
      · rename_i ne
        have differs : (name == first) = false := by simpa using ne
        simpa [List.lookup_cons, differs] using ih

@[simp] theorem lookup_insertField_ne (ne : other ≠ name) :
    (insertField name value fields).lookup other = fields.lookup other := by
  have differs : (other == name) = false := by simpa using ne
  unfold insertField
  induction fields with
  | nil => simp [SortedMap.updateEntries, List.lookup_cons, differs]
  | cons field fields ih =>
    obtain ⟨first, old⟩ := field
    unfold SortedMap.updateEntries
    split
    · simp [List.lookup_cons, differs]
    · split
      · rename_i same
        subst same
        simp [List.lookup_cons, differs]
      · simp only [List.lookup_cons, ih]

/-- A filter that drops the name does not see it written. -/
theorem filter_insertField {keep : String → Bool} (drops : keep name = false) :
    (insertField name value fields).filter (fun field => keep field.1) =
      fields.filter fun field => keep field.1 := by
  unfold insertField
  induction fields with
  | nil => simp [SortedMap.updateEntries, drops]
  | cons field fields ih =>
    obtain ⟨first, old⟩ := field
    unfold SortedMap.updateEntries
    split
    · simp [drops]
    · split
      · rename_i same
        subst same
        simp [drops]
      · simp [List.filter_cons, ih]

/-- What a filter by name leaves of a lookup. -/
theorem lookup_filter {keep : String → Bool} :
    (fields.filter fun field => keep field.1).lookup name =
      if keep name then fields.lookup name else none := by
  induction fields with
  | nil => simp
  | cons field fields ih =>
    obtain ⟨first, old⟩ := field
    rw [List.filter_cons]
    by_cases same : name = first
    · subst same
      cases kept : keep name with
      | true => simp
      | false =>
        simp only [kept, Bool.false_eq_true, if_false] at ih ⊢
        exact ih
    · have differs : (name == first) = false := by simpa using same
      cases kept : keep first <;> simp [List.lookup_cons, differs, ih]

theorem lookup_modifyField_self {f : Value → Value} :
    (modifyField name f fields).lookup name = (fields.lookup name).map f := by
  induction fields with
  | nil => rfl
  | cons field fields ih =>
    obtain ⟨first, old⟩ := field
    by_cases same : name = first
    · subst same
      simp [modifyField]
    · have differs : (name == first) = false := by simpa using same
      simp [modifyField, List.lookup_cons, differs, Ne.symm same, ih]

theorem lookup_modifyField_ne {f : Value → Value} (ne : other ≠ name) :
    (modifyField name f fields).lookup other = fields.lookup other := by
  induction fields with
  | nil => rfl
  | cons field fields ih =>
    obtain ⟨first, old⟩ := field
    by_cases same : first = name
    · subst same
      have differs : (other == first) = false := by simpa using ne
      simp [modifyField, List.lookup_cons, differs]
    · simp [modifyField, List.lookup_cons, same, ih]

theorem names_modifyField {f : Value → Value} :
    (modifyField name f fields).map Prod.fst = fields.map Prod.fst := by
  induction fields with
  | nil => rfl
  | cons field fields ih =>
    obtain ⟨first, old⟩ := field
    by_cases same : first = name <;> simp [modifyField, same, ih]

/-- An assignment of what is there already changes nothing. -/
theorem modifyField_eq_self {f : Value → Value}
    (fixed : ∀ value, fields.lookup name = some value → f value = value) :
    modifyField name f fields = fields := by
  induction fields with
  | nil => rfl
  | cons field fields ih =>
    obtain ⟨first, old⟩ := field
    by_cases same : first = name
    · subst same
      simp [modifyField, fixed old]
    · have differs : (name == first) = false := by simpa using Ne.symm same
      simp only [List.lookup_cons, differs] at fixed
      simp [modifyField, same, ih fixed]

end LlamaServerManager.Lib.Json
