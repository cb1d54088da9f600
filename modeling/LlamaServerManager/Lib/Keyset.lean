import Mathlib.Data.List.Sort

/-!
Reading a table page by page, the largest key first. A page holds what comes
first below its cursor, and the cursor of the next page is the key of the last
row on it. Nothing is said of what happens to the table between two pages; a page
is determined by the rows it is read from.
-/

namespace LlamaServerManager.Lib.Keyset

variable {α κ : Type} [LinearOrder κ] (key : α → κ)

/-- The rows with the largest key first. -/
def newest (rows : List α) : List α := rows.insertionSort fun a b => key b ≤ key a

structure Page (α κ : Type) where
  records : List α
  next : Option κ

/-- One row more than a page holds is fetched: it tells that another page follows. -/
def page (limit : Nat) (rows : List α) : Page α κ :=
  let fetched := (newest key rows).take (limit + 1)
  let more := decide (limit < fetched.length)
  let records := fetched.take limit
  { records, next := (records.getLast?.filter fun _ => more).map key }

variable {key} {limit : Nat} {rows : List α} {row : α} {n : κ}

@[simp] theorem mem_newest : row ∈ newest key rows ↔ row ∈ rows := List.mem_insertionSort _

@[simp] theorem length_newest : (newest key rows).length = rows.length :=
  List.length_insertionSort _ _

/-- Rows of different keys come in strictly descending order. -/
theorem newest_sorted (distinct : (rows.map key).Nodup) :
    (newest key rows).Pairwise fun a b => key b < key a := by
  have sorted : (newest key rows).Pairwise fun a b => key b ≤ key a :=
    List.pairwise_insertionSort (r := fun a b => key b ≤ key a) rows
  have nodup : ((newest key rows).map key).Nodup :=
    ((List.perm_insertionSort _ rows).map key).nodup_iff.mpr distinct
  have differ := List.pairwise_map.mp nodup
  exact (sorted.and differ).imp fun both => lt_of_le_of_ne both.1 both.2.symm

theorem records_eq : (page key limit rows).records = (newest key rows).take limit := by
  simp [page, List.take_take]

theorem records_sorted (distinct : (rows.map key).Nodup) :
    (page key limit rows).records.Pairwise fun a b => key b < key a := by
  rw [records_eq]
  exact (newest_sorted distinct).sublist (List.take_sublist _ _)

/-- A page of which another follows is full, and the cursor is the key of its last row. -/
theorem next_eq_some :
    (page key limit rows).next = some n ↔
      limit < rows.length ∧ ∃ last, ((newest key rows).take limit).getLast? = some last ∧
        key last = n := by
  simp only [page, List.take_take, Nat.min_eq_left (Nat.le_succ limit), List.length_take,
    length_newest, Option.map_eq_some_iff, Option.filter_eq_some_iff, decide_eq_true_eq]
  constructor
  · rintro ⟨last, ⟨isLast, more⟩, same⟩
    exact ⟨by omega, last, isLast, same⟩
  · rintro ⟨more, last, isLast, same⟩
    exact ⟨last, ⟨isLast, by omega⟩, same⟩

theorem length_records (next : (page key limit rows).next = some n) :
    (page key limit rows).records.length = limit := by
  obtain ⟨more, _⟩ := next_eq_some.mp next
  rw [records_eq, List.length_take, length_newest]
  omega

theorem next_mem (next : (page key limit rows).next = some n) :
    ∃ last ∈ (page key limit rows).records, key last = n := by
  obtain ⟨_, last, isLast, same⟩ := next_eq_some.mp next
  rw [records_eq]
  exact ⟨last, List.mem_of_getLast? isLast, same⟩

theorem mem_of_mem_records (mem : row ∈ (page key limit rows).records) : row ∈ rows := by
  rw [records_eq] at mem
  exact mem_newest.mp (List.mem_of_mem_take mem)

/-- The last row of a page has its least key. -/
theorem next_le (distinct : (rows.map key).Nodup) (next : (page key limit rows).next = some n)
    (mem : row ∈ (page key limit rows).records) : n ≤ key row := by
  obtain ⟨_, last, isLast, rfl⟩ := next_eq_some.mp next
  have sorted := @records_sorted _ _ _ key limit rows distinct
  rw [records_eq] at mem sorted
  obtain ⟨front, whole⟩ := List.getLast?_eq_some_iff.mp isLast
  rw [whole] at mem sorted
  rcases List.mem_append.mp mem with inFront | isIt
  · exact ((List.pairwise_append.mp sorted).2.2 row inFront last (by simp)).le
  · simp at isIt
    rw [isIt]

/-- **A page holds the rows of its range**: all from the next cursor on. -/
theorem mem_records (positive : 0 < limit) (distinct : (rows.map key).Nodup) :
    row ∈ (page key limit rows).records ↔
      row ∈ rows ∧ ∀ n ∈ (page key limit rows).next, n ≤ key row := by
  constructor
  · exact fun mem => ⟨mem_of_mem_records mem, fun n next => next_le distinct next mem⟩
  · rintro ⟨mem, inRange⟩
    rw [records_eq]
    by_cases more : limit < rows.length
    · -- what is behind the page is below its last row
      obtain ⟨last, isLast⟩ : ∃ last, ((newest key rows).take limit).getLast? = some last := by
        rw [← Option.isSome_iff_exists, List.getLast?_isSome, ← List.length_pos_iff,
          List.length_take, length_newest]
        omega
      have above := inRange (key last) (next_eq_some.mpr ⟨more, last, isLast, rfl⟩)
      have sorted := newest_sorted distinct
      rw [← List.take_append_drop limit (newest key rows)] at sorted
      have whole : row ∈ newest key rows := mem_newest.mpr mem
      rw [← List.take_append_drop limit (newest key rows)] at whole
      rcases List.mem_append.mp whole with onPage | behind
      · exact onPage
      · have onPage := List.mem_of_getLast? isLast
        have below := (List.pairwise_append.mp sorted).2.2 last onPage row behind
        exact absurd above (not_le.mpr below)
    · rw [List.take_of_length_le (by simpa using Nat.le_of_not_lt more)]
      exact mem_newest.mpr mem

end LlamaServerManager.Lib.Keyset
