import LlamaServerManager.Lib.Machine
import Mathlib.Data.List.Nodup
import Mathlib.Logic.Function.Basic

/-!
A lock for each key, made when it is asked for. A table has weak references to the locks; a lock
lives as long as somebody has a strong one, which is whoever asked for it, until it is dropped. The
references that are dead are dropped from the table before a lock is looked up, and one may die
between the two.

* `Consistent` — all strong references for a key are to the lock that the table has for it.
* `exclusive` — no two hold the lock of one key.
* `lock_enabled_iff` — a lock is waited for only while somebody holds the one of the same key.
-/

namespace LlamaServerManager.Lib.KeyedLocks

universe u

/-- A strong reference to the lock of a key, and whether the lock is held through it. -/
structure Handle (κ : Type u) where
  key : κ
  lock : Nat
  holds : Bool
deriving DecidableEq, Repr

/-- The table holds weak references: it names the lock of a key, and does not keep it
alive. Locks are numbered in the order they were made. -/
structure State (κ : Type u) where
  table : κ → Option Nat
  handles : List (Handle κ)
  /-- The locks that have been made. -/
  created : Nat

/-- The steps of the callers, each of them atomic as the table is behind a mutex of its
own. -/
inductive Step (κ : Type u) where
  /-- `retain(|_, lock| lock.strong_count() > 0)` -/
  | retain
  /-- The lock of the key: the one that lives, or a new one. -/
  | get (key : κ)
  | lock (index : Nat)
  /-- The guard is dropped. -/
  | unlock (index : Nat)
  /-- The reference is dropped, which no guard may outlive. -/
  | drop (index : Nat)
deriving DecidableEq, Repr

variable {κ : Type u} [DecidableEq κ]

def State.live (s : State κ) (lock : Nat) : Bool := s.handles.any (·.lock = lock)

/-- The handles through which locks are held. -/
def State.holders (s : State κ) : List (Handle κ) := s.handles.filter (·.holds)

def next (s : State κ) : Step κ → Option (State κ)
  | .retain => some { s with table := fun key => (s.table key).filter s.live }
  | .get key =>
    match (s.table key).filter s.live with
    | some lock => some { s with handles := s.handles ++ [⟨key, lock, false⟩] }
    | none => some
        { table := Function.update s.table key (some s.created)
          handles := s.handles ++ [⟨key, s.created, false⟩]
          created := s.created + 1 }
  | .lock index =>
    match s.handles[index]? with
    | some handle =>
      if handle.lock ∈ s.holders.map (·.lock) then none
      else some { s with handles := s.handles.set index { handle with holds := true } }
    | none => none
  | .unlock index =>
    match s.handles[index]? with
    | some handle =>
      if handle.holds then
        some { s with handles := s.handles.set index { handle with holds := false } }
      else none
    | none => none
  | .drop index =>
    match s.handles[index]? with
    | some handle =>
      if handle.holds then none else some { s with handles := s.handles.eraseIdx index }
    | none => none

def machine (κ : Type u) [DecidableEq κ] : Machine (State κ) (Step κ) where
  init := { table := fun _ => none, handles := [], created := 0 }
  next := next

/-! ### The table -/

/-- The lock that a handle refers to is the one in the table under its key, and no lock
is under two keys. -/
structure Consistent (s : State κ) : Prop where
  keyed : ∀ handle ∈ s.handles, s.table handle.key = some handle.lock
  created : ∀ key lock, s.table key = some lock → lock < s.created
  injective : ∀ key other lock, s.table key = some lock → s.table other = some lock → key = other

/-- No lock is held twice. -/
def Single (s : State κ) : Prop := (s.holders.map (·.lock)).Nodup

section Invariant

variable {s t : State κ} {step : Step κ}

omit [DecidableEq κ] in
theorem live_of_mem {handle : Handle κ} (mem : handle ∈ s.handles) : s.live handle.lock = true :=
  List.any_eq_true.mpr ⟨handle, mem, decide_eq_true rfl⟩

theorem Consistent.update {key : κ} (h : Consistent s)
    (dead : ∀ handle ∈ s.handles, handle.key ≠ key) :
    Consistent (⟨Function.update s.table key (some s.created),
      s.handles ++ [⟨key, s.created, false⟩], s.created + 1⟩ : State κ) := by
  have other : ∀ k lock, k ≠ key → Function.update s.table key (some s.created) k = some lock →
      s.table k = some lock ∧ lock < s.created := by
    intro k lock ne found
    rw [Function.update_of_ne ne] at found
    exact ⟨found, h.created k lock found⟩
  have new : Function.update s.table key (some s.created) key = some s.created :=
    Function.update_self ..
  refine ⟨fun handle mem => ?_, fun k lock found => ?_, fun k k' lock found found' => ?_⟩
  · rcases List.mem_append.mp mem with old | new
    · exact (Function.update_of_ne (dead handle old) ..).trans (h.keyed handle old)
    · rw [List.mem_singleton.mp new]
      exact Function.update_self ..
  · by_cases same : k = key
    · subst same
      obtain rfl := Option.some.inj (new.symm.trans found)
      exact Nat.lt_succ_self _
    · exact Nat.lt_succ_of_lt (other k lock same found).2
  · by_cases same : k = key
    · by_cases same' : k' = key
      · exact same.trans same'.symm
      · subst same
        obtain rfl := Option.some.inj (new.symm.trans found)
        exact absurd (other k' _ same' found').2 (Nat.lt_irrefl _)
    · by_cases same' : k' = key
      · subst same'
        obtain rfl := Option.some.inj (new.symm.trans found')
        exact absurd (other k _ same found).2 (Nat.lt_irrefl _)
      · exact h.injective k k' lock (other k lock same found).1 (other k' lock same' found').1

omit [DecidableEq κ] in
/-- Whether a lock is held is not in the table. -/
theorem Consistent.set {index : Nat} {handle : Handle κ} (h : Consistent s)
    (found : s.handles[index]? = some handle) (holds : Bool) :
    Consistent { s with handles := s.handles.set index { handle with holds } } := by
  refine ⟨fun other mem => ?_, h.created, h.injective⟩
  rcases List.mem_or_eq_of_mem_set mem with old | rfl
  · exact h.keyed other old
  · exact h.keyed handle (List.mem_of_getElem? found)

theorem Consistent.next (h : Consistent s) (hn : KeyedLocks.next s step = some t) :
    Consistent t := by
  cases step with
  | retain =>
    cases hn
    have kept : ∀ key lock, (s.table key).filter s.live = some lock → s.table key = some lock :=
      fun key lock found => (Option.filter_eq_some_iff.mp found).1
    refine ⟨fun handle mem => ?_, fun key lock found => h.created key lock (kept key lock found),
      fun key other lock found found' =>
        h.injective key other lock (kept key lock found) (kept other lock found')⟩
    exact Option.filter_eq_some_iff.mpr ⟨h.keyed handle mem, live_of_mem mem⟩
  | get key =>
    simp only [KeyedLocks.next] at hn
    split at hn
    · rename_i lock found
      cases hn
      refine ⟨fun handle mem => ?_, h.created, h.injective⟩
      rcases List.mem_append.mp mem with old | new
      · exact h.keyed handle old
      · rw [List.mem_singleton.mp new]
        exact (Option.filter_eq_some_iff.mp found).1
    · rename_i dead
      cases hn
      refine h.update fun handle mem same => ?_
      have found := Option.filter_eq_some_iff.mpr ⟨same ▸ h.keyed handle mem, live_of_mem mem⟩
      cases dead.symm.trans found
  | lock index =>
    simp only [KeyedLocks.next] at hn
    split at hn
    · rename_i handle found
      split at hn
      · cases hn
      · cases hn
        exact h.set found true
    · cases hn
  | unlock index =>
    simp only [KeyedLocks.next] at hn
    split at hn
    · rename_i handle found
      split at hn
      · cases hn
        exact h.set found false
      · cases hn
    · cases hn
  | drop index =>
    simp only [KeyedLocks.next] at hn
    split at hn
    · split at hn
      · cases hn
      · cases hn
        exact ⟨fun handle mem => h.keyed handle (List.mem_of_mem_eraseIdx mem), h.created,
          h.injective⟩
    · cases hn

theorem Single.next (h : Single s) (hn : KeyedLocks.next s step = some t) : Single t := by
  have fresh : ∀ (key : κ) (lock : Nat),
      (s.handles ++ [(⟨key, lock, false⟩ : Handle κ)]).filter (·.holds) = s.holders := by
    intro key lock
    rw [List.filter_append, List.filter_singleton]
    exact List.append_nil _
  cases step with
  | retain => cases hn; exact h
  | get key =>
    simp only [KeyedLocks.next] at hn
    split at hn
    · cases hn
      rwa [Single, State.holders, fresh]
    · cases hn
      rwa [Single, State.holders, fresh]
  | lock index =>
    simp only [KeyedLocks.next] at hn
    split at hn
    · rename_i handle found
      split at hn
      · cases hn
      · rename_i free
        cases hn
        obtain ⟨bound, rfl⟩ := List.getElem?_eq_some_iff.mp found
        -- the handle did not hold the lock before, or the lock would not be free
        have idle : s.handles[index].holds = false := by
          refine Bool.eq_false_iff.mpr fun holds => free (List.mem_map_of_mem ?_)
          exact List.mem_filter.mpr ⟨List.getElem_mem bound, holds⟩
        have before : s.holders = (s.handles.take index).filter (·.holds) ++
            (s.handles.drop (index + 1)).filter (·.holds) := by
          conv_lhs => rw [State.holders, ← List.take_append_drop index s.handles,
            List.drop_eq_getElem_cons bound, List.filter_append, List.filter_cons, idle]
          rfl
        rw [Single, before, List.map_append] at h
        rw [before, List.map_append] at free
        rw [Single, State.holders, List.set_eq_take_append_cons_drop, if_pos bound,
          List.filter_append, List.filter_cons, if_pos rfl, List.map_append, List.map_cons]
        exact List.nodup_middle.mpr (List.nodup_cons.mpr ⟨free, h⟩)
    · cases hn
  | unlock index =>
    simp only [KeyedLocks.next] at hn
    split at hn
    · rename_i handle found
      split at hn
      · cases hn
        obtain ⟨bound, rfl⟩ := List.getElem?_eq_some_iff.mp found
        -- one handle less holds its lock
        have fewer : (s.handles.set index { s.handles[index] with holds := false }).filter
            (·.holds) = (s.handles.eraseIdx index).filter (·.holds) := by
          rw [List.set_eq_take_append_cons_drop, if_pos bound, List.eraseIdx_eq_take_drop_succ,
            List.filter_append, List.filter_append, List.filter_cons]
          rfl
        rw [Single, State.holders, fewer]
        exact List.Sublist.nodup (((List.eraseIdx_sublist _ _).filter _).map _) h
      · cases hn
    · cases hn
  | drop index =>
    simp only [KeyedLocks.next] at hn
    split at hn
    · split at hn
      · cases hn
      · cases hn
        exact List.Sublist.nodup (((List.eraseIdx_sublist _ _).filter _).map _) h
    · cases hn

theorem consistent_init : Consistent (machine κ).init :=
  ⟨fun _ mem => absurd mem List.not_mem_nil, fun _ _ found => (by cases found),
    fun _ _ _ found => (by cases found)⟩

theorem invariant (reached : (machine κ).Reachable s) : Consistent s ∧ Single s :=
  Machine.Reachable.invariant (P := fun s => Consistent s ∧ Single s)
    ⟨consistent_init, List.nodup_nil⟩ (fun _ _ _ hn h => ⟨h.1.next hn, h.2.next hn⟩) reached

/-- **No two hold the lock of one key.** -/
theorem exclusive (reached : (machine κ).Reachable s) : (s.holders.map (·.key)).Nodup := by
  obtain ⟨consistent, single⟩ := invariant reached
  have same : s.holders.map (·.lock) =
      (s.holders.map (·.key)).map fun key => (s.table key).getD 0 := by
    rw [List.map_map]
    refine List.map_congr_left fun handle mem => ?_
    simp [consistent.keyed handle (List.mem_filter.mp mem).1]
  rw [Single, same] at single
  exact List.Nodup.of_map _ single

/-- **A lock is waited for** only while somebody holds the one of the same key. -/
theorem lock_enabled_iff (reached : (machine κ).Reachable s) {index : Nat} {handle : Handle κ}
    (found : s.handles[index]? = some handle) :
    (KeyedLocks.next s (.lock index)).isSome ↔ handle.key ∉ s.holders.map (·.key) := by
  obtain ⟨consistent, -⟩ := invariant reached
  have here := consistent.keyed handle (List.mem_of_getElem? found)
  have iff : handle.lock ∈ s.holders.map (·.lock) ↔ handle.key ∈ s.holders.map (·.key) := by
    simp only [List.mem_map]
    refine exists_congr fun other => and_congr_right fun mem => ?_
    have there := consistent.keyed other (List.mem_filter.mp mem).1
    constructor
    · exact fun same => consistent.injective _ _ other.lock there (same ▸ here)
    · exact fun same => Option.some.inj (there.symm.trans (same ▸ here))
  simp only [KeyedLocks.next, found, iff]
  split <;> simp [*]

end Invariant

end LlamaServerManager.Lib.KeyedLocks
