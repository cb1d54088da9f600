import LlamaServerManager.Lib.Rotation
import LlamaServerManager.Admission.World

/-!
The order in which requests are admitted.

Within one key it is first come, first served, under any configuration changes
(`World.next_admits_first`). Between keys, `turns` is a round-robin list: as long as
the fair queue and its configuration stay and a key waits below its limit, every
step of the admission object is a move of the abstract rotor that passes that key
over (`step_simulates_rotor`), so the rotor's bound on overtaking applies.
-/

namespace LlamaServerManager.Admission

open Lib

namespace World

/-- The key has a waiter. -/
def Waits (w : World) (key : String) : Prop := ∃ e ∈ w.state.waiting, e.2 = key

/-- Every earlier request of the admitted ticket's key has left the queue. -/
theorem next_admits_first {w t : World} {a : Action} {id : Nat} {key : String} (good : w.Good)
    (h : w.next a = some t) (admits : t.admitted = w.admitted ++ [(id, key)]) :
    ∀ e ∈ w.state.waiting, e.2 = key → id ≤ e.1 := by
  have grants : ∀ {s : State} {i : Nat}, w.admitted ++ [(i, s.keyOf i)] = w.admitted ++ [(id, key)] →
      i = id ∧ s.keyOf i = key := by
    intro s i eq
    have last := List.append_cancel_left eq
    simpa using last
  have keeps : w.admitted ≠ w.admitted ++ [(id, key)] := by simp
  intro e he same
  cases a with
  | acquire k =>
    rcases w.state.acquire_cases k with ⟨eq, room, avail, none⟩ | eq | ⟨eq, -⟩ <;>
      simp only [World.next, eq, Option.some.injEq] at h <;> subst h
    · -- The fast path: a waiter of the same key would have been selected.
      obtain ⟨rfl, hk⟩ := grants admits
      rw [State.keyOf_activate] at hk
      subst hk
      rcases (State.selected_eq_none good.wf).mp none with full | closed
      · omega
      · have := closed e he
        rw [same, avail] at this
        cases this
    · exact absurd admits keeps
    · exact absurd admits keeps
  | inspect i =>
    simp only [World.next] at h
    split at h
    swap
    · cases h
    cases admitted : w.state.admitWaiter i with
    | none =>
      simp only [admitted, Option.some.injEq] at h
      subst h
      exact absurd admits keeps
    | some s =>
      simp only [admitted, Option.some.injEq] at h
      subst h
      obtain ⟨left, k, right, eq, -, -, first, -, rfl⟩ := good.wf.admitWaiter admitted
      obtain ⟨rfl, hk⟩ := grants admits
      rw [State.keyOf_activate] at hk
      subst hk
      -- The queue is sorted and the admitted entry is the first of its key.
      have sorted := good.wf.sorted
      rw [eq, List.map_append, List.map_cons] at sorted
      rw [eq] at he
      rcases List.mem_append.mp he with before | after
      · exact absurd same (first e before)
      · rcases List.mem_cons.mp after with rfl | behind
        · exact Nat.le_refl _
        · have := (List.pairwise_cons.mp (List.pairwise_append.mp sorted).2.1).1 e.1
            (List.mem_map_of_mem behind)
          exact Nat.le_of_lt this
  | dropWaiter i | dropPermit i | target i model inst =>
    simp only [World.next] at h
    split at h
    · cases h
      exact absurd admits keeps
    · cases h
  | configure config =>
    cases h
    exact absurd admits keeps

end World

/-! ### The fair queue as a rotor -/

/-- One step before the next admission of `key`: the fair queue and the
configuration stay, and the key is below its limit. -/
structure Undisturbed (key : String) (w : World) (_ : Action) (t : World) : Prop where
  fair : w.state.fair = true
  unchanged : t.state.limit = w.state.limit ∧ t.state.fair = w.state.fair ∧
    t.state.limits = w.state.limits
  below_limit : w.state.available key = true
  not_admitted : (t.admitted.map (·.2)).count key = (w.admitted.map (·.2)).count key

instance (key : String) (w : World) (action : Action) (t : World) :
    Decidable (Undisturbed key w action t) :=
  decidable_of_iff
    (w.state.fair = true ∧
      (t.state.limit = w.state.limit ∧ t.state.fair = w.state.fair ∧
        t.state.limits.entries = w.state.limits.entries) ∧
      w.state.available key = true ∧
      (t.admitted.map (·.2)).count key = (w.admitted.map (·.2)).count key)
    ⟨fun ⟨fair, ⟨limit, mode, limits⟩, below, admitted⟩ =>
        ⟨fair, ⟨limit, mode, AList.ext limits⟩, below, admitted⟩,
      fun ⟨fair, ⟨limit, mode, limits⟩, below, admitted⟩ =>
        ⟨fair, ⟨limit, mode, congrArg _ limits⟩, below, admitted⟩⟩

/-- The same, with a waiter of the key left. -/
structure KeepsWaiting (key : String) (w : World) (action : Action) (t : World) : Prop
    extends Undisturbed key w action t where
  waits : t.Waits key

instance (key : String) (w : World) (action : Action) (t : World) :
    Decidable (KeepsWaiting key w action t) :=
  decidable_of_iff (Undisturbed key w action t ∧ ∃ e ∈ t.state.waiting, e.2 = key)
    ⟨fun ⟨still, waits⟩ => ⟨still, waits⟩, fun ⟨still, waits⟩ => ⟨still, waits⟩⟩

/-- The rotor of an admission object: its `turns`, and the keys admitted so far. -/
def World.rotor (w : World) : Rotor String := ⟨w.state.turns, w.admitted.map (·.2)⟩

theorem rotor_join (w : World) (id : Nat) (key : String) :
    w.rotor.next (.join key) = some ⟨(w.state.enqueue id key).turns, w.rotor.served⟩ := by
  by_cases mem : key ∈ w.state.turns
  · simp [World.rotor, Rotor.next, State.enqueue, mem]
  · simp [World.rotor, Rotor.next, State.enqueue, mem]

/-- While the key waits, every undisturbed step is a move of the rotor that
passes the key over, or no move. -/
theorem step_simulates_rotor {key : String} {w t : World} {a : Action} (good : w.Good)
    (waits : w.Waits key) (h : w.next a = some t) (still : KeepsWaiting key w a t) :
    ∃ moves, (rotor {turns := [], served := []}).run w.rotor moves = some t.rotor ∧
      (rotor {turns := [], served := []}).Along (Passes key) w.rotor moves := by
  have stutter : ∀ {u : World}, u.state.turns = w.state.turns → u.admitted = w.admitted →
      ∃ moves, (rotor {turns := [], served := []}).run w.rotor moves = some u.rotor ∧
        (rotor {turns := [], served := []}).Along (Passes key) w.rotor moves := by
    intro u turns admitted
    exact ⟨[], by simp [World.rotor, turns, admitted], trivial⟩
  have single : ∀ {u : Rotor String} {m : Move String}, w.rotor.next m = some u →
      Passes key w.rotor m u →
      ∃ moves, (rotor {turns := [], served := []}).run w.rotor moves = some u ∧
        (rotor {turns := [], served := []}).Along (Passes key) w.rotor moves := by
    intro u m step passes
    refine ⟨[m], (rotor _).run_cons_eq_some.mpr ⟨u, step, rfl⟩, ?_⟩
    intro v hv
    have : u = v := Option.some.inj (step.symm.trans hv)
    exact ⟨this ▸ passes, trivial⟩
  obtain ⟨e, he, same⟩ := waits
  cases a with
  | acquire k =>
    rcases w.state.acquire_cases k with ⟨eq, room, avail, none⟩ | eq | ⟨eq, -⟩ <;>
      simp only [World.next, eq, Option.some.injEq] at h <;> subst h
    · -- No fast path: the waiting key would have been selected.
      rcases (State.selected_eq_none good.wf).mp none with full | closed
      · omega
      · have := closed e he
        rw [same, still.below_limit] at this
        cases this
    · exact stutter rfl rfl
    · exact single (rotor_join w w.state.next k) trivial
  | inspect i =>
    simp only [World.next] at h
    split at h
    swap
    · cases h
    cases admitted : w.state.admitWaiter i with
    | none =>
      simp only [admitted, Option.some.injEq] at h
      subst h
      exact stutter rfl rfl
    | some s =>
      simp only [admitted, Option.some.injEq] at h
      subst h
      obtain ⟨left, k, right, eq, -, -, -, turn, rfl⟩ := good.wf.admitWaiter admitted
      have other : k ≠ key := by
        rintro rfl
        have := still.not_admitted
        simp [World.grant] at this
      apply single (m := .serve k w.state.available
        ((left ++ right).any fun w => w.2 == k)) _ ⟨other, still.below_limit⟩
      have found : w.rotor.turns.find? w.state.available = some k := turn still.fair
      rw [Rotor.next_serve _ found]
      simp only [World.rotor, World.grant, State.keyOf_activate, State.activate_turns,
        List.map_append, List.map_cons, List.map_nil]
      cases (left ++ right).any fun w => w.2 == k with
      | true => rfl
      | false => rw [if_neg Bool.false_ne_true, if_neg Bool.false_ne_true, List.append_nil]
  | dropWaiter i =>
    simp only [World.next] at h
    split at h
    swap
    · cases h
    cases h
    rcases w.state.dropWaiter_cases i with ⟨unchanged, -⟩ | ⟨k, u, hu, eq⟩
    · exact stutter (by rw [unchanged]) rfl
    · obtain ⟨left, right, -, -, rfl⟩ := State.removeWaiter_eq_some hu
      by_cases remaining : (left ++ right).any (fun w => w.2 == k) = true
      · apply stutter
        · rw [eq]
          simp [remaining]
        · rfl
      · -- The key that leaves `turns` has no waiter left, so it is another one.
        have other : k ≠ key := by
          rintro rfl
          obtain ⟨e', he', same'⟩ := still.waits
          rw [eq] at he'
          exact remaining (List.any_eq_true.mpr ⟨e', he', by simpa using same'⟩)
        apply single (m := .leave k) _ other
        simp only [World.rotor, Rotor.next, eq, if_neg remaining]
  | dropPermit i =>
    simp only [World.next] at h
    split at h
    swap
    · cases h
    cases h
    exact stutter (State.dropPermit_queue w.state i).2 rfl
  | target i model inst =>
    simp only [World.next] at h
    split at h
    swap
    · cases h
    cases h
    exact stutter (State.target_queue w.state i model inst).2 rfl
  | configure config =>
    cases h
    exact stutter rfl rfl

/-! ### The order of admission -/

/-- Along a run that ends before the tickets wrap, no state has wrapped. -/
theorem issued_along {w t : World} {actions : List Action} (hr : machine.run w actions = some t)
    (few : t.issued < 2 ^ 64) :
    machine.Along (fun _ _ t => t.issued < 2 ^ 64) w actions := by
  induction actions generalizing w with
  | nil => trivial
  | cons a as ih =>
    obtain ⟨m, hm, ht⟩ := machine.run_cons_eq_some.mp hr
    have later : m.issued ≤ t.issued :=
      Machine.run_preserves (P := fun s => m.issued ≤ s.issued)
        (fun _ _ _ h le => Nat.le_trans le (World.issued_mono h)) ht (Nat.le_refl _)
    exact (Machine.along_cons hm).mpr ⟨Nat.lt_of_le_of_lt later few, ih ht⟩

/-- A run in which the key keeps waiting is a run of the rotor that passes it over. -/
theorem run_simulates_rotor {key : String} {w t : World} {later : List Action} (good : w.Good)
    (waits : w.Waits key) (still : machine.Along (KeepsWaiting key) w later)
    (hr : machine.run w later = some t) (few : t.issued < 2 ^ 64) :
    ∃ moves, (rotor {turns := [], served := []}).run w.rotor moves = some t.rotor ∧
      (rotor {turns := [], served := []}).Along (Passes key) w.rotor moves := by
  have step : ∀ s a u r, machine.next s a = some u → KeepsWaiting key s a u ∧ u.issued < 2 ^ 64 →
      (s.Good ∧ s.Waits key ∧ r = s.rotor) →
      ∃ moves r', (rotor {turns := [], served := []}).run r moves = some r' ∧
        (rotor {turns := [], served := []}).Along (Passes key) r moves ∧
        (u.Good ∧ u.Waits key ∧ r' = u.rotor) := by
    rintro s a u r h ⟨still, few⟩ ⟨good, waits, rfl⟩
    obtain ⟨moves, run, passes⟩ := step_simulates_rotor good waits h still
    exact ⟨moves, u.rotor, run, passes, good.next few h, still.waits, rfl⟩
  obtain ⟨moves, r, run, passes, -, -, rfl⟩ :=
    Machine.run_simulates_along step (still.and (issued_along hr few)) hr ⟨good, waits, rfl⟩
  exact ⟨moves, run, passes⟩

/-- **First come, first served within a key; bounded overtaking between keys.**
Whatever happened before and whatever the configuration, the ticket a step
admits is the earliest waiting one of its key. While the fair queue and its
configuration stay and `key` keeps a waiter below its limit, every other key is
admitted at most once before `key` is. -/
theorem fifo_and_bounded_overtaking {w : World} {actions : List Action}
    (hr : machine.run machine.init actions = some w) (few : w.issued < 2 ^ 64) :
    (∀ action t id key, machine.next w action = some t →
      t.admitted = w.admitted ++ [(id, key)] →
      ∀ e ∈ w.state.waiting, e.2 = key → id ≤ e.1) ∧
    (∀ key later t, w.Waits key → machine.Along (KeepsWaiting key) w later →
      machine.run w later = some t → t.issued < 2 ^ 64 →
      ∀ other, other ≠ key → (t.admitted.map (·.2)).count other ≤
        (w.admitted.map (·.2)).count other + 1) := by
  have good := World.good_of_run hr few
  constructor
  · intro action t id key h admits
    exact World.next_admits_first good h admits
  · intro key later t waits still hr' few' other ne
    obtain ⟨moves, run, passes⟩ := run_simulates_rotor good waits still hr' few'
    obtain ⟨e, he, same⟩ := waits
    have turn : key ∈ w.rotor.turns := (good.wf.mem_turns key).mpr ⟨e, he, same⟩
    exact served_at_most_once ne.symm turn passes run

/-- One slot, held by `b`, with `b` and then `k` waiting for it. -/
def backlog : List Action :=
  [.configure { maxConcurrentRequests := 1, fairQueueEnabled := true },
    .acquire "b", .acquire "b", .acquire "k"]

/-- `b` is admitted and asks again, but the next slot is not for it. -/
def patient : List Action :=
  [.dropPermit 0, .inspect 1, .acquire "b", .dropPermit 1, .inspect 3]

theorem fifo_and_bounded_overtaking_backlog :
    ∃ w t, machine.run machine.init backlog = some w ∧ machine.run w patient = some t ∧
      (t.admitted.map (·.2)).count "b" ≤ (w.admitted.map (·.2)).count "b" + 1 := by
  have hw : machine.run machine.init backlog =
      some ((machine.run machine.init backlog).getD {}) := rfl
  have ht : machine.run ((machine.run machine.init backlog).getD {}) patient =
      some ((machine.run ((machine.run machine.init backlog).getD {}) patient).getD {}) := rfl
  exact ⟨_, _, hw, ht, (fifo_and_bounded_overtaking hw (by decide)).2 "k" patient _
    ⟨(2, "k"), by decide⟩ (by decide) ht (by decide) "b" (by decide)⟩

/-- The same, with `k` giving up and asking again in between. -/
def impatient : List Action :=
  [.dropPermit 0, .inspect 1, .acquire "b", .dropWaiter 2, .acquire "k", .dropPermit 1, .inspect 3]

/-- A key whose last waiter gives up loses its place: without the condition that
a waiter is left, another key is admitted twice. -/
theorem overtaking_of_abandoned :
    ¬ ∀ actions w, machine.run machine.init actions = some w → w.issued < 2 ^ 64 →
      ∀ key later t, w.Waits key → machine.Along (Undisturbed key) w later →
        machine.run w later = some t → t.issued < 2 ^ 64 →
        ∀ other, other ≠ key → (t.admitted.map (·.2)).count other ≤
          (w.admitted.map (·.2)).count other + 1 := by
  intro bounded
  have hw : machine.run machine.init backlog =
      some ((machine.run machine.init backlog).getD {}) := rfl
  have ht : machine.run ((machine.run machine.init backlog).getD {}) impatient =
      some ((machine.run ((machine.run machine.init backlog).getD {}) impatient).getD {}) := rfl
  have twice := bounded backlog _ hw (by decide) "k" impatient _ ⟨(2, "k"), by decide⟩
    (by decide) ht (by decide) "b" (by decide)
  exact absurd twice (by decide)

end LlamaServerManager.Admission
