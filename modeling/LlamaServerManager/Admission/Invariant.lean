import LlamaServerManager.Admission.Selection

/-!
Every critical section keeps the admission collections consistent (`State.Wf`),
and what the critical sections with several endings do (`acquire_cases`,
`Wf.admitWaiter`, `dropWaiter_cases`).
-/

namespace LlamaServerManager.Admission

open Lib

/-! ### Each operation keeps the collections consistent -/

namespace State

theorem default_wf : State.default.Wf where
  sorted := List.Pairwise.nil
  waiting_lt := by simp [State.default]
  active_lt := by simp [State.default]
  disjoint := by simp [State.default]
  turns_nodup := List.nodup_nil
  mem_turns := by simp [State.default]
  counted := by simp [State.default, activeOf]
  no_zero := by simp [State.default]
  waiting_le := Nat.zero_le _
  waitingOf_le := fun _ => Nat.zero_le _

variable {s : State} {id : Nat}

/-- Recording a fresh ticket moves the counter of its key and no other. -/
theorem activate_counted {key : String}
    (counted : ∀ k, (s.keyActive.lookup k).getD 0 = s.activeOf k) (fresh : id ∉ s.active)
    (k : String) :
    ((s.activate id key).keyActive.lookup k).getD 0 = (s.activate id key).activeOf k := by
  have count := Dict.count_insert_of_notMem (b := (key, "", "")) (fun e => e.1 == k) fresh
  by_cases same : k = key
  · subst same
    simp only [activate, activeOf, AList.lookup_insert, Option.getD_some]
    rw [count, counted k]
    simp [activeOf]
  · simp only [activate, activeOf, AList.lookup_insert_ne same]
    rw [count, counted k]
    simp [activeOf, Ne.symm same]

theorem Wf.activate {key : String} (wf : s.Wf) (lt : id < s.next) (fresh : id ∉ s.active)
    (apart : ∀ w ∈ s.waiting, w.1 ≠ id) : (s.activate id key).Wf where
  sorted := wf.sorted
  waiting_lt := wf.waiting_lt
  active_lt := by
    intro i hi
    rcases (AList.mem_insert s.active).mp hi with rfl | old
    · exact lt
    · exact wf.active_lt i old
  disjoint := by
    intro w hw hi
    rcases (AList.mem_insert s.active).mp hi with same | old
    · exact apart w hw same
    · exact wf.disjoint w hw old
  turns_nodup := wf.turns_nodup
  mem_turns := wf.mem_turns
  counted := activate_counted wf.counted fresh
  no_zero := by
    intro k
    by_cases same : k = key
    · subst same
      simp [State.activate]
    · simpa [State.activate, AList.lookup_insert_ne same] using wf.no_zero k
  waiting_le := wf.waiting_le
  waitingOf_le := wf.waitingOf_le

theorem advance_next (h : s.next + 1 < 2 ^ 64) : s.advance.next = s.next + 1 :=
  Nat.mod_eq_of_lt h

theorem Wf.advance (wf : s.Wf) (h : s.next + 1 < 2 ^ 64) : s.advance.Wf :=
  { wf with
    waiting_lt := fun w hw => by
      rw [advance_next h]
      exact Nat.lt_succ_of_lt (wf.waiting_lt w hw)
    active_lt := fun id hid => by
      rw [advance_next h]
      exact Nat.lt_succ_of_lt (wf.active_lt id hid) }

theorem Wf.enqueue {key : String} (wf : s.Wf) (lt : id < s.next) (last : ∀ w ∈ s.waiting, w.1 < id)
    (fresh : id ∉ s.active) (room : s.waiting.length < maxWaiters)
    (keyRoom : s.waitingOf key < maxKeyWaiters) :
    (s.enqueue id key).Wf where
  sorted := by
    simp only [State.enqueue, List.map_append, List.map_cons, List.map_nil]
    refine List.pairwise_append.mpr ⟨wf.sorted, List.pairwise_singleton _ _, ?_⟩
    intro a ha b hb
    obtain ⟨w, hw, rfl⟩ := List.mem_map.mp ha
    rw [List.mem_singleton.mp hb]
    exact last w hw
  waiting_lt := by
    intro w hw
    rcases List.mem_append.mp hw with old | new
    · exact wf.waiting_lt w old
    · rw [List.mem_singleton.mp new]; exact lt
  active_lt := wf.active_lt
  disjoint := by
    intro w hw
    rcases List.mem_append.mp hw with old | new
    · exact wf.disjoint w old
    · rw [List.mem_singleton.mp new]; exact fresh
  turns_nodup := by
    simp only [State.enqueue]
    split
    · exact wf.turns_nodup
    · rename_i absent
      refine List.nodup_append.mpr ⟨wf.turns_nodup, List.nodup_singleton _, ?_⟩
      intro a ha b hb same
      rw [same, List.mem_singleton.mp hb] at ha
      exact absent (List.contains_iff_mem.mpr ha)
  mem_turns := by
    intro k
    have old := wf.mem_turns k
    simp only [State.enqueue, List.mem_append, List.mem_singleton]
    have split_waiting : (∃ w, (w ∈ s.waiting ∨ w = (id, key)) ∧ w.2 = k) ↔
        (∃ w ∈ s.waiting, w.2 = k) ∨ key = k := by
      constructor
      · rintro ⟨w, hw | rfl, hk⟩
        · exact .inl ⟨w, hw, hk⟩
        · exact .inr hk
      · rintro (⟨w, hw, hk⟩ | hk)
        · exact ⟨w, .inl hw, hk⟩
        · exact ⟨(id, key), .inr rfl, hk⟩
    rw [split_waiting, ← old]
    split
    · rename_i present
      have mem := List.contains_iff_mem.mp present
      constructor
      · exact .inl
      · rintro (h | rfl)
        · exact h
        · exact mem
    · simp [eq_comm]
  counted := wf.counted
  no_zero := wf.no_zero
  waiting_le := by
    simp only [State.enqueue, List.length_append, List.length_singleton]
    omega
  waitingOf_le := by
    intro k
    have old := wf.waitingOf_le k
    simp only [waitingOf, State.enqueue, List.filter_append, List.length_append] at old keyRoom ⊢
    by_cases same : key = k
    · subst same
      simp
      omega
    · simpa [same] using old

theorem Wf.removeWaiter {s t : State} {rotate : Bool} {key : String} (wf : s.Wf)
    (h : s.removeWaiter id rotate = some (key, t)) :
    t.Wf ∧ (∀ w ∈ t.waiting, w.1 ≠ id) ∧ id < s.next ∧ id ∉ s.active := by
  obtain ⟨left, right, eq, hleft, rfl⟩ := removeWaiter_eq_some h
  have sub : (left ++ right).Sublist s.waiting := by
    rw [eq]
    exact List.Sublist.append_left (List.sublist_cons_self _ _) _
  have mem : (id, key) ∈ s.waiting := eq ▸ List.mem_append_right _ List.mem_cons_self
  refine ⟨⟨wf.sorted.sublist (sub.map _), fun w hw => wf.waiting_lt w (sub.subset hw),
    wf.active_lt, fun w hw => wf.disjoint w (sub.subset hw), ?_, ?_, wf.counted, wf.no_zero,
    Nat.le_trans sub.length_le wf.waiting_le, ?_⟩, ?_, wf.waiting_lt _ mem, wf.disjoint _ mem⟩
  · -- `turns` stays duplicate-free: the key is filtered out before it is re-appended.
    have kept : (s.turns.filter fun k => k != key).Nodup := wf.turns_nodup.filter _
    dsimp only
    split
    · split
      · refine List.nodup_append.mpr ⟨kept, List.nodup_singleton _, ?_⟩
        intro a ha b hb same
        rw [same, List.mem_singleton.mp hb] at ha
        simp at ha
      · exact wf.turns_nodup
    · exact kept
  · intro k
    have old : k ∈ s.turns ↔ (∃ w ∈ left ++ right, w.2 = k) ∨ key = k := by
      rw [wf.mem_turns k, eq]
      constructor
      · rintro ⟨w, hw, hk⟩
        rcases List.mem_append.mp hw with hl | hr
        · exact .inl ⟨w, List.mem_append_left _ hl, hk⟩
        · rcases List.mem_cons.mp hr with rfl | hr
          · exact .inr hk
          · exact .inl ⟨w, List.mem_append_right _ hr, hk⟩
      · rintro (⟨w, hw, hk⟩ | hk)
        · exact ⟨w, (List.Sublist.append_left (List.sublist_cons_self _ _) _).subset hw, hk⟩
        · exact ⟨(id, key), List.mem_append_right _ List.mem_cons_self, hk⟩
    dsimp only
    split
    · rename_i remaining
      obtain ⟨v, hv, hvk⟩ := List.any_eq_true.mp remaining
      have keyStays : key = k → ∃ w ∈ left ++ right, w.2 = k := by
        intro same
        exact ⟨v, hv, (by simpa using hvk : v.2 = key).trans same⟩
      have stays : k ∈ s.turns ↔ ∃ w ∈ left ++ right, w.2 = k := by
        rw [old]
        exact ⟨fun h => h.elim (fun h => h) keyStays, .inl⟩
      split
      · rw [← stays]
        by_cases same : k = key
        · subst same
          simpa using stays.mpr (keyStays rfl)
        · simp [same]
      · exact stays
    · rename_i gone
      have noKey : ∀ w ∈ left ++ right, w.2 ≠ key := by
        intro w hw same
        exact gone (List.any_eq_true.mpr ⟨w, hw, by simpa using same⟩)
      simp only [List.mem_filter, old, bne_iff_ne, ne_eq]
      constructor
      · rintro ⟨hw | same, ne⟩
        · exact hw
        · exact absurd same.symm ne
      · rintro ⟨w, hw, rfl⟩
        exact ⟨.inl ⟨w, hw, rfl⟩, noKey w hw⟩
  · intro k
    exact Nat.le_trans (sub.filter _).length_le (wf.waitingOf_le k)
  · -- Tickets are strictly increasing, so the removed one occurs once.
    intro w hw same
    rcases List.mem_append.mp hw with hl | hr
    · exact hleft w hl same
    · have sorted := wf.sorted
      rw [eq, List.map_append, List.map_cons] at sorted
      have := (List.pairwise_cons.mp (List.pairwise_append.mp sorted).2.1).1 w.1
        (List.mem_map_of_mem hr)
      simp only at this
      omega

/-- Dropping a permit of a recorded ticket gives its key's counter back. -/
theorem dropPermit_eq {key model inst : String}
    (counted : ∀ k, (s.keyActive.lookup k).getD 0 = s.activeOf k)
    (h : s.active.lookup id = some (key, model, inst)) :
    ∃ keyActive : Dict String Nat,
      s.dropPermit id = { s with active := s.active.erase id, keyActive } ∧
      (∀ k, k ≠ key → keyActive.lookup k = s.keyActive.lookup k) ∧
      (keyActive.lookup key).getD 0 + 1 = (s.keyActive.lookup key).getD 0 ∧
      keyActive.lookup key ≠ some 0 := by
  have positive : 0 < (s.keyActive.lookup key).getD 0 := by
    rw [counted key]
    exact Dict.count_pos h (by simp)
  cases hc : s.keyActive.lookup key with
  | none => simp [hc] at positive
  | some count =>
    simp only [hc, Option.getD_some] at positive
    simp only [dropPermit, h, hc]
    by_cases last : count - 1 = 0
    · refine ⟨s.keyActive.erase key, by rw [if_pos last], ?_, ?_, ?_⟩
      · intro k hk
        exact AList.lookup_erase_ne hk
      · simp only [AList.lookup_erase, Option.getD_none, Option.getD_some]
        omega
      · simp
    · refine ⟨s.keyActive.insert key (count - 1), by rw [if_neg last], ?_, ?_, ?_⟩
      · intro k hk
        exact AList.lookup_insert_ne hk
      · simp only [AList.lookup_insert, Option.getD_some]
        omega
      · simpa using last

theorem dropPermit_of_none (h : s.active.lookup id = none) : s.dropPermit id = s := by
  simp [dropPermit, h]

theorem Wf.dropPermit (wf : s.Wf) : (s.dropPermit id).Wf := by
  cases h : s.active.lookup id with
  | none =>
    rw [dropPermit_of_none h]
    exact wf
  | some entry =>
    obtain ⟨key, model, inst⟩ := entry
    obtain ⟨keyActive, eq, others, own, nonzero⟩ := dropPermit_eq wf.counted h
    rw [eq]
    refine { wf with active_lt := ?_, disjoint := ?_, counted := ?_, no_zero := ?_ }
    · intro i hi
      exact wf.active_lt i (AList.mem_erase.mp hi).2
    · intro w hw hi
      exact wf.disjoint w hw (AList.mem_erase.mp hi).2
    · intro k
      have count := Dict.count_erase (fun e => e.1 == k) h
      have old := wf.counted k
      by_cases same : k = key
      · subst same
        simp only [activeOf, beq_self_eq_true, if_true] at count old ⊢
        omega
      · have other : (key == k) = false := by simpa using Ne.symm same
        simp only [activeOf, others k same, other, Bool.false_eq_true, if_false] at count old ⊢
        omega
    · intro k
      by_cases same : k = key
      · subst same; exact nonzero
      · show keyActive.lookup k ≠ some 0
        rw [others k same]
        exact wf.no_zero k

theorem dropPermit_active_subset (s : State) (id i : Nat) (h : i ∈ (s.dropPermit id).active) :
    i ∈ s.active := by
  unfold dropPermit at h
  split at h
  · exact h
  · dsimp only at h
    split at h
    · exact (AList.mem_erase.mp h).2
    · split at h <;> exact (AList.mem_erase.mp h).2

/-- `target` rewrites the model and instance of a ticket and keeps its key. -/
theorem target_eq (s : State) (id : Nat) (model inst : String) :
    s.target id model inst = s ∨ ∃ key model' inst' model'',
      s.active.lookup id = some (key, model', inst') ∧
      s.target id model inst = { s with active := s.active.insert id (key, model'', inst) } := by
  cases h : s.active.lookup id with
  | none => exact .inl (by simp [target, h])
  | some entry =>
    obtain ⟨key, model', inst'⟩ := entry
    exact .inr ⟨key, model', inst', .ofList (model.toList.take 512), rfl, by simp [target, h]⟩

theorem target_active_subset (s : State) (id : Nat) (model inst : String) (i : Nat)
    (h : i ∈ (s.target id model inst).active) : i ∈ s.active := by
  rcases target_eq s id model inst with same | ⟨key, model', inst', model'', found, eq⟩
  · exact same ▸ h
  · rw [eq] at h
    rcases (AList.mem_insert s.active).mp h with rfl | old
    · exact AList.lookup_isSome.mp (by rw [found]; rfl)
    · exact old

theorem Wf.target {model inst : String} (wf : s.Wf) : (s.target id model inst).Wf := by
  rcases target_eq s id model inst with same | ⟨key, model', inst', model'', h, eq⟩
  · rw [same]; exact wf
  have mem : id ∈ s.active := AList.lookup_isSome.mp (by rw [h]; rfl)
  have keys : ∀ i, i ∈ s.active.insert id (key, model'', inst) → i ∈ s.active := by
    intro i hi
    rcases (AList.mem_insert s.active).mp hi with rfl | old
    · exact mem
    · exact old
  rw [eq]
  refine { wf with
    active_lt := fun i hi => wf.active_lt i (keys i hi)
    disjoint := fun w hw hi => wf.disjoint w hw (keys _ hi)
    counted := ?_ }
  intro k
  have count := Dict.count_insert_of_lookup (fun e => e.1 == k) (key, model'', inst) h
  have old := wf.counted k
  simp only [activeOf] at count old ⊢
  omega

/-- Neither a dropped permit nor `target` touches the queue. -/
theorem dropPermit_queue (s : State) (id : Nat) :
    (s.dropPermit id).waiting = s.waiting ∧ (s.dropPermit id).turns = s.turns := by
  unfold dropPermit
  split
  · exact ⟨rfl, rfl⟩
  · dsimp only
    split
    · exact ⟨rfl, rfl⟩
    · split <;> exact ⟨rfl, rfl⟩

theorem target_queue (s : State) (id : Nat) (model inst : String) :
    (s.target id model inst).waiting = s.waiting ∧ (s.target id model inst).turns = s.turns := by
  unfold target
  split <;> exact ⟨rfl, rfl⟩

/-- Nor do they issue tickets. -/
theorem dropPermit_next (s : State) (id : Nat) : (s.dropPermit id).next = s.next := by
  unfold dropPermit
  split
  · rfl
  · dsimp only
    split
    · rfl
    · split <;> rfl

theorem target_next (s : State) (id : Nat) (model inst : String) :
    (s.target id model inst).next = s.next := by
  unfold target
  split <;> rfl

theorem Wf.configure {config : ProxyConfig} (wf : s.Wf) : (s.configure config).Wf :=
  { wf with }

/-! ### What the two-step operations do -/

/-- The three ways `acquire`'s critical section ends. -/
theorem acquire_cases (s : State) (key : String) :
    (s.acquire key = (s.advance.activate s.next key, .permit s.next) ∧
      s.active.size < s.limit ∧ s.available key = true ∧ s.selected = none) ∨
    s.acquire key = (s, .refused) ∨
    (s.acquire key = (s.advance.enqueue s.next key, .waiter s.next) ∧
      s.waiting.length < maxWaiters ∧ s.waitingOf key < maxKeyWaiters ∧
      ¬ (s.active.size < s.limit ∧ s.available key = true ∧ s.selected = none)) := by
  unfold acquire
  split
  · rename_i fast
    exact .inl ⟨rfl, fast⟩
  · rename_i slow
    split
    · exact .inr (.inl rfl)
    · rename_i room
      obtain ⟨all, own⟩ := not_or.mp room
      exact .inr (.inr ⟨rfl, not_le.mp all, not_le.mp own, slow⟩)

theorem admitWaiter_eq_some {s t : State} (h : s.admitWaiter id = some t) :
    s.selected = some id ∧ ∃ key u, s.removeWaiter id true = some (key, u) ∧
      t = u.activate id key := by
  unfold admitWaiter at h
  split at h
  · rename_i sel
    obtain ⟨⟨key, u⟩, hu, rfl⟩ := Option.map_eq_some_iff.mp h
    exact ⟨sel, key, u, hu, rfl⟩
  · cases h

/-- A ticket waits under one key. -/
theorem Wf.key_unique (wf : s.Wf) {key key' : String} (h : (id, key) ∈ s.waiting)
    (h' : (id, key') ∈ s.waiting) : key = key' := by
  have nodup : (s.waiting.map (·.1)).Nodup := wf.sorted.imp (fun lt => Nat.ne_of_lt lt)
  have same := List.inj_on_of_nodup_map nodup h h' rfl
  exact congrArg Prod.snd same

/-- The admission of a waiter: it was the first waiter of its key, capacity was
free for it, and in fair mode its key was the first available one of `turns`.
Its key goes to the back of `turns`, or leaves with its last waiter. -/
theorem Wf.admitWaiter {s t : State} (wf : s.Wf) (h : s.admitWaiter id = some t) :
    ∃ left key right, s.waiting = left ++ (id, key) :: right ∧ s.active.size < s.limit ∧
      s.available key = true ∧ (∀ w ∈ left, w.2 ≠ key) ∧
      (s.fair = true → s.turns.find? s.available = some key) ∧
      t = State.activate { s with
        waiting := left ++ right
        turns :=
          if (left ++ right).any (fun w => w.2 == key) = true then
            (s.turns.filter fun k => k != key) ++ [key]
          else s.turns.filter fun k => k != key } id key := by
  obtain ⟨sel, key, u, hu, rfl⟩ := admitWaiter_eq_some h
  obtain ⟨room, l, key', r, eq', avail, first, turn⟩ := selected_eq_some sel
  obtain ⟨left, right, eq, -, shape⟩ := removeWaiter_eq_some hu
  have mem : (id, key) ∈ s.waiting := eq ▸ List.mem_append_right _ List.mem_cons_self
  have mem' : (id, key') ∈ s.waiting := eq' ▸ List.mem_append_right _ List.mem_cons_self
  have same := wf.key_unique mem mem'
  subst same
  -- Both searches find the first entry of the ticket, so they split the queue alike.
  have nodup : s.waiting.Nodup := by
    have distinct : (s.waiting.map (·.1)).Nodup := wf.sorted.imp (fun lt => Nat.ne_of_lt lt)
    exact distinct.of_map _
  rw [eq, List.nodup_middle, List.nodup_cons, List.mem_append, not_or] at nodup
  rw [eq] at eq'
  obtain ⟨rfl, -, rfl⟩ :=
    (List.append_cons_inj_of_notMem nodup.1.1 nodup.1.2).mp eq'
  refine ⟨left, key, right, eq, room, avail, first, turn, ?_⟩
  rw [shape]
  simp only [if_true]

/-- The `unwrap` in the waiter's critical section never panics. -/
theorem removeWaiter_of_selected (h : s.selected = some id) :
    (s.removeWaiter id true).isSome = true := by
  obtain ⟨key, mem, -⟩ := selected_mem h
  rw [Option.isSome_iff_ne_none, ne_eq, removeWaiter_eq_none]
  intro absent
  exact absent _ mem rfl

theorem dropWaiter_cases (s : State) (id : Nat) :
    (s.dropWaiter id = s ∧ ∀ w ∈ s.waiting, w.1 ≠ id) ∨
      ∃ key t, s.removeWaiter id false = some (key, t) ∧ s.dropWaiter id = t := by
  cases h : s.removeWaiter id false with
  | none => exact .inl ⟨by simp [dropWaiter, h], removeWaiter_eq_none.mp h⟩
  | some r =>
    obtain ⟨key, t⟩ := r
    exact .inr ⟨key, t, rfl, by simp [dropWaiter, h]⟩

/-- The key a ticket was admitted under. -/
def keyOf (s : State) (id : Nat) : String := ((s.active.lookup id).map (·.1)).getD ""

@[simp] theorem keyOf_activate (s : State) (id : Nat) (key : String) :
    (s.activate id key).keyOf id = key := by
  simp [keyOf, activate]

end State

end LlamaServerManager.Admission
