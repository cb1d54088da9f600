import LlamaServerManager.Lib.Dict

/-!
Indices held in buckets by a key. An index of a list that is thinned out is kept bucket by
bucket (`Indexes`); the least index that satisfies a test is found in the buckets of those
keys that such an index can have (`search_eq_find?`).
-/

namespace LlamaServerManager.Lib.Buckets

universe u

variable {κ : Type u} [DecidableEq κ]

/-- The indices under a key. -/
def bucket (m : Dict κ (List Nat)) (k : κ) : List Nat := (m.lookup k).getD []

/-- One more index under a key. -/
def push (m : Dict κ (List Nat)) (k : κ) (i : Nat) : Dict κ (List Nat) :=
  m.insert k (bucket m k ++ [i])

/-- The index at a position under a key goes. -/
def remove (m : Dict κ (List Nat)) (k : κ) (position : Nat) : Dict κ (List Nat) :=
  m.insert k ((bucket m k).eraseIdx position)

/-- The better of two: an index that passes the test, and is less than the one so far. -/
def better (test : Nat → Bool) (best : Option (κ × Nat × Nat)) (k : κ) (i position : Nat) :
    Option (κ × Nat × Nat) :=
  if test i && best.all (fun found => decide (i < found.2.2)) then some (k, position, i) else best

/-- The best index under one key. -/
def searchBucket (test : Nat → Bool) (k : κ) (indices : List Nat)
    (best : Option (κ × Nat × Nat)) : Option (κ × Nat × Nat) :=
  indices.zipIdx.foldl (fun best entry => better test best k entry.1 entry.2) best

/-- The best index under some keys: its key, its position there, and itself. -/
def search (test : Nat → Bool) (m : Dict κ (List Nat)) (keys : List κ) :
    Option (κ × Nat × Nat) :=
  keys.foldl (fun best k =>
    match m.lookup k with
    | none => best
    | some indices => searchBucket test k indices best) none

/-! ### What the buckets hold -/

/-- Each bucket holds the indices with its key, in order. -/
def Indexes (m : Dict κ (List Nat)) (key : Nat → κ) (is : List Nat) : Prop :=
  ∀ k, bucket m k = is.filter fun i => key i = k

variable {m : Dict κ (List Nat)} {key : Nat → κ} {is : List Nat} {test : Nat → Bool}

theorem bucket_insert (k k' : κ) (indices : List Nat) :
    bucket (m.insert k indices) k' = if k' = k then indices else bucket m k' := by
  by_cases same : k' = k
  · subst same
    simp [bucket]
  · simp [bucket, AList.lookup_insert_ne same, same]

theorem indexes_empty : Indexes (∅ : Dict κ (List Nat)) key [] := fun _ => rfl

theorem Indexes.congr {key' : Nat → κ} (h : Indexes m key is) (same : ∀ i ∈ is, key i = key' i) :
    Indexes m key' is := by
  intro k
  rw [h k]
  exact List.filter_congr fun i at_ => by rw [same i at_]

theorem Indexes.push (h : Indexes m key is) (i : Nat) :
    Indexes (push m (key i) i) key (is ++ [i]) := by
  intro k
  rw [Buckets.push, bucket_insert, List.filter_append, h k, h (key i)]
  by_cases same : k = key i
  · subst same
    simp
  · simp [same, eq_comm]

theorem Indexes.remove (h : Indexes m key is) (nodup : is.Nodup) {k : κ} {position i : Nat}
    (at_ : (bucket m k)[position]? = some i) :
    Indexes (remove m k position) key (is.erase i) := by
  obtain ⟨inside, at_⟩ := List.getElem?_eq_some_iff.mp at_
  have of_bucket : i ∈ is.filter fun i => key i = k := by
    rw [← h k, ← at_]
    exact List.getElem_mem inside
  obtain ⟨-, keyed⟩ := List.mem_filter.mp of_bucket
  have keyed : key i = k := of_decide_eq_true keyed
  have bucket_nodup : (bucket m k).Nodup := by
    rw [h k]
    exact nodup.filter _
  intro k'
  rw [Buckets.remove, bucket_insert]
  by_cases same : k' = k
  · subst same
    rw [if_pos rfl, nodup.erase_eq_filter, List.filter_filter]
    have erased : (bucket m k').eraseIdx position = (bucket m k').erase i := by
      rw [← at_, bucket_nodup.erase_getElem]
    rw [erased, bucket_nodup.erase_eq_filter, h k', List.filter_filter]
    exact List.filter_congr fun j _ => Bool.and_comm _ _
  · rw [if_neg same, h k', nodup.erase_eq_filter, List.filter_filter]
    refine List.filter_congr fun j _ => ?_
    by_cases other : key j = k'
    · have different : j ≠ i := by
        rintro rfl
        exact same (other.symm.trans keyed)
      simp [other, different]
    · simp [other]

/-! ### What a search finds -/

/-- The indices under a key with the key and their positions. -/
def entries (k : κ) (indices : List Nat) : List (κ × Nat × Nat) :=
  indices.zipIdx.map fun entry => (k, entry.2, entry.1)

/-- The least index seen that passes the test, if one does. -/
def Least (test : Nat → Bool) (seen : List (κ × Nat × Nat)) : Option (κ × Nat × Nat) → Prop
  | none => ∀ entry ∈ seen, test entry.2.2 = false
  | some found => found ∈ seen ∧ test found.2.2 = true ∧
      ∀ entry ∈ seen, test entry.2.2 = true → found.2.2 ≤ entry.2.2

omit [DecidableEq κ] in
theorem Least.better {seen : List (κ × Nat × Nat)} {best : Option (κ × Nat × Nat)}
    (h : Least test seen best) (k : κ) (i position : Nat) :
    Least test (seen ++ [(k, position, i)]) (better test best k i position) := by
  unfold Buckets.better
  cases passes : test i with
  | false =>
    cases best with
    | none => exact List.forall_mem_append.mpr ⟨h, by simpa using passes⟩
    | some found =>
      obtain ⟨at_, found_passes, least⟩ := h
      refine ⟨List.mem_append_left _ at_, found_passes, ?_⟩
      refine List.forall_mem_append.mpr ⟨least, ?_⟩
      simp [passes]
  | true =>
    cases best with
    | none =>
      refine ⟨by simp, passes, List.forall_mem_append.mpr ⟨?_, by simp⟩⟩
      intro entry at_ entry_passes
      rw [h entry at_] at entry_passes
      cases entry_passes
    | some found =>
      obtain ⟨at_, found_passes, least⟩ := h
      by_cases earlier : i < found.2.2
      · simp only [Option.all_some, earlier, decide_true, Bool.and_self, ↓reduceIte]
        refine ⟨by simp, passes, List.forall_mem_append.mpr ⟨?_, by simp⟩⟩
        intro entry at_ entry_passes
        exact Nat.le_trans (Nat.le_of_lt earlier) (least entry at_ entry_passes)
      · simp only [Option.all_some, earlier, decide_false, Bool.and_false, Bool.false_eq_true,
          ↓reduceIte]
        refine ⟨List.mem_append_left _ at_, found_passes,
          List.forall_mem_append.mpr ⟨least, ?_⟩⟩
        simpa using fun _ => Nat.not_lt.mp earlier

omit [DecidableEq κ] in
theorem Least.searchBucket {seen : List (κ × Nat × Nat)} {best : Option (κ × Nat × Nat)}
    (h : Least test seen best) (k : κ) (indices : List Nat) :
    Least test (seen ++ entries k indices) (searchBucket test k indices best) := by
  unfold Buckets.searchBucket entries
  generalize indices.zipIdx = all
  induction all generalizing seen best with
  | nil => simpa using h
  | cons entry all ih =>
    have step := ih (h.better k entry.1 entry.2)
    rwa [List.append_assoc] at step

theorem least_search (keys : List κ) :
    Least test (keys.flatMap fun k => entries k (bucket m k)) (search test m keys) := by
  have general (seen : List (κ × Nat × Nat)) (best : Option (κ × Nat × Nat))
      (h : Least test seen best) : Least test
        (seen ++ keys.flatMap fun k => entries k (bucket m k))
        (keys.foldl (fun best k =>
          match m.lookup k with
          | none => best
          | some indices => Buckets.searchBucket test k indices best) best) := by
    induction keys generalizing seen best with
    | nil => simpa using h
    | cons k keys ih =>
      rw [List.flatMap_cons, ← List.append_assoc, List.foldl_cons]
      refine ih _ _ ?_
      cases held : m.lookup k with
      | none => simpa [bucket, held, entries] using h
      | some indices => simpa [bucket, held] using h.searchBucket k indices
  simpa [search] using general [] none (by simp [Least])

omit [DecidableEq κ] in
theorem mem_entries {k : κ} {indices : List Nat} {entry : κ × Nat × Nat} :
    entry ∈ entries k indices ↔ entry.1 = k ∧ indices[entry.2.1]? = some entry.2.2 := by
  obtain ⟨k', position, i⟩ := entry
  simp only [entries, List.mem_map, Prod.mk.injEq, Prod.exists]
  constructor
  · rintro ⟨i', position', at_, rfl, rfl, rfl⟩
    exact ⟨rfl, List.mk_mem_zipIdx_iff_getElem?.mp at_⟩
  · rintro ⟨rfl, at_⟩
    exact ⟨i, position, List.mk_mem_zipIdx_iff_getElem?.mpr at_, rfl, rfl, rfl⟩

/-- **A search of the buckets** finds the first index that passes and has one of the
keys. -/
theorem search_eq_find? (h : Indexes m key is) (ordered : is.Pairwise (· < ·)) (keys : List κ) :
    (search test m keys).map (fun found => found.2.2) =
        is.find? (fun i => test i && decide (key i ∈ keys)) ∧
      ∀ found, search test m keys = some found →
        (bucket m found.1)[found.2.1]? = some found.2.2 := by
  have least := @least_search κ _ m test keys
  -- an index of the list has an entry under its key, and an entry is one of the list
  have seen {i : Nat} (at_ : i ∈ is) (keyed : key i ∈ keys) :
      ∃ entry ∈ keys.flatMap fun k => entries k (bucket m k), entry.2.2 = i := by
    have inBucket : i ∈ bucket m (key i) := by
      rw [h (key i)]
      exact List.mem_filter.mpr ⟨at_, by simp⟩
    obtain ⟨position, at_position⟩ := List.mem_iff_getElem?.mp inBucket
    exact ⟨(key i, position, i), List.mem_flatMap.mpr
      ⟨key i, keyed, mem_entries.mpr ⟨rfl, at_position⟩⟩, rfl⟩
  have held {entry : κ × Nat × Nat}
      (at_ : entry ∈ keys.flatMap fun k => entries k (bucket m k)) :
      (bucket m entry.1)[entry.2.1]? = some entry.2.2 ∧ entry.2.2 ∈ is ∧
        key entry.2.2 ∈ keys := by
    obtain ⟨k, inKeys, at_⟩ := List.mem_flatMap.mp at_
    obtain ⟨rfl, at_⟩ := mem_entries.mp at_
    have inBucket := List.mem_of_getElem? at_
    rw [h] at inBucket
    obtain ⟨inList, same⟩ := List.mem_filter.mp inBucket
    exact ⟨at_, inList, of_decide_eq_true same ▸ inKeys⟩
  cases found : search test m keys with
  | none =>
    rw [found] at least
    refine ⟨?_, fun _ none_ => (nomatch none_)⟩
    symm
    rw [Option.map_none, List.find?_eq_none]
    intro i at_ wanted
    obtain ⟨passes, keyed⟩ := by simpa using wanted
    obtain ⟨entry, at_entry, rfl⟩ := seen at_ keyed
    rw [least entry at_entry] at passes
    cases passes
  | some best =>
    rw [found] at least
    obtain ⟨at_, passes, least⟩ := least
    obtain ⟨position, listed, keyed⟩ := held at_
    refine ⟨?_, fun other same => by rwa [← Option.some.inj same]⟩
    symm
    rw [Option.map_some, List.find?_eq_some_iff_append]
    obtain ⟨before, after, split⟩ := List.append_of_mem listed
    refine ⟨by simp [passes, keyed], before, after, split, ?_⟩
    intro i inBefore
    by_contra also
    obtain ⟨also, alsoKeyed⟩ : test i = true ∧ key i ∈ keys := by simpa using also
    have inList : i ∈ is := by
      rw [split]
      exact List.mem_append_left _ inBefore
    obtain ⟨entry, at_entry, rfl⟩ := seen inList alsoKeyed
    have le := least entry at_entry also
    rw [split] at ordered
    have lt := (List.pairwise_append.mp ordered).2.2 _ inBefore _ List.mem_cons_self
    omega

end LlamaServerManager.Lib.Buckets
