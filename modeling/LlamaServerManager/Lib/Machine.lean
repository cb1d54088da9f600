import Mathlib.Data.Option.Basic
import Mathlib.Data.List.Induction

/-!
Executable transition systems. A `Machine` has one initial state and a partial
`next`; nondeterminism (schedules, environment answers, injected faults) lives
in the labels, so a run is a list of labels and can be evaluated.

The rules are the usual ones: an invariant is a property of `init` kept by
`next` (`Reachable.invariant`); a property of the steps of one run carries a
weaker invariant along that run (`run_preserves_along`); a simulation carries
reachability from a concrete machine to an abstract one (`Simulation.run`).
-/

namespace LlamaServerManager.Lib

universe u v w x

/-- An executable transition system. `next s l` is the state after `l`, or `none` when
`l` is not enabled in `s`; there is one initial state, and what is not determined is in
the labels. -/
structure Machine (σ : Type u) (ℓ : Type v) where
  init : σ
  next : σ → ℓ → Option σ

namespace Machine

variable {σ : Type u} {ℓ : Type v} (M : Machine σ ℓ)

/-- The state after the labels, in order; `none` once one of them is not enabled. -/
def run : σ → List ℓ → Option σ
  | s, [] => some s
  | s, l :: ls => (M.next s l).bind (run · ls)

@[simp] theorem run_nil (s : σ) : M.run s [] = some s := rfl

variable {s t : σ} {ls : List ℓ}

theorem run_cons_eq_some {l : ℓ} :
    M.run s (l :: ls) = some t ↔ ∃ m, M.next s l = some m ∧ M.run m ls = some t := by
  simp [run, Option.bind_eq_some_iff]

theorem run_append {ls ms : List ℓ} :
    M.run s (ls ++ ms) = some t ↔ ∃ m, M.run s ls = some m ∧ M.run m ms = some t := by
  induction ls generalizing s with
  | nil => simp
  | cons l ls ih =>
    simp only [List.cons_append, run_cons_eq_some, ih]
    constructor
    · rintro ⟨m, hm, n, hn, ht⟩
      exact ⟨n, ⟨m, hm, hn⟩, ht⟩
    · rintro ⟨n, ⟨m, hm, hn⟩, ht⟩
      exact ⟨m, hm, n, hn, ht⟩

theorem run_concat {l : ℓ} :
    M.run s (ls ++ [l]) = some t ↔ ∃ m, M.run s ls = some m ∧ M.next m l = some t := by
  rw [run_append]
  simp [run_cons_eq_some]

/-- A state some run from `init` ends in. -/
def Reachable (s : σ) : Prop := ∃ ls, M.run M.init ls = some s

variable {M}

theorem Reachable.init : M.Reachable M.init := ⟨[], rfl⟩

theorem Reachable.run (h : M.Reachable s) (hr : M.run s ls = some t) : M.Reachable t := by
  obtain ⟨ks, hk⟩ := h
  exact ⟨ks ++ ls, M.run_append.mpr ⟨s, hk, hr⟩⟩

theorem Reachable.next {l : ℓ} (h : M.Reachable s) (hn : M.next s l = some t) : M.Reachable t := by
  have hr : M.run s [l] = some t := M.run_cons_eq_some.mpr ⟨t, hn, rfl⟩
  exact h.run hr

/-! ### Invariants -/

/-- What every step keeps, every run keeps. -/
theorem run_preserves {P : σ → Prop} (step : ∀ s l t, M.next s l = some t → P s → P t)
    (hr : M.run s ls = some t) (hs : P s) : P t := by
  induction ls generalizing s with
  | nil => cases hr; exact hs
  | cons l ls ih =>
    obtain ⟨m, hm, ht⟩ := M.run_cons_eq_some.mp hr
    exact ih ht (step s l m hm hs)

/-- The invariant rule. -/
theorem Reachable.invariant {P : σ → Prop} (init : P M.init)
    (step : ∀ s l t, M.next s l = some t → P s → P t) {s : σ} (h : M.Reachable s) : P s := by
  obtain ⟨ls, hr⟩ := h
  exact run_preserves step hr init

/-- The invariant rule with the reachability of the pre-state at hand. -/
theorem Reachable.strong_invariant {P : σ → Prop} (init : P M.init)
    (step : ∀ s l t, M.Reachable s → M.next s l = some t → P s → P t) {s : σ}
    (h : M.Reachable s) : P s := by
  suffices both : M.Reachable s ∧ P s from both.2
  refine Reachable.invariant (P := fun s => M.Reachable s ∧ P s) ⟨.init, init⟩ ?_ h
  rintro s l t hn ⟨hs, ps⟩
  exact ⟨hs.next hn, step s l t hs hn ps⟩

/-- The invariant rule for a property of a state and the labels that led to it. -/
theorem run_invariant {P : List ℓ → σ → Prop} (init : P [] M.init)
    (step : ∀ ls s l t, P ls s → M.next s l = some t → P (ls ++ [l]) t) {s : σ}
    (hr : M.run M.init ls = some s) : P ls s := by
  induction ls using List.reverseRecOn generalizing s with
  | nil => cases hr; exact init
  | append_singleton ls l ih =>
    obtain ⟨m, hm, hn⟩ := M.run_concat.mp hr
    exact step ls m l s (ih hm) hn

/-! ### Runs all of whose steps satisfy a property -/

variable (M) in
/-- `G` holds of every step the labels take from `s`. A condition on the environment of
a run is stated so, and so is a property of all its states. -/
def Along (G : σ → ℓ → σ → Prop) : σ → List ℓ → Prop
  | _, [] => True
  | s, l :: ls => ∀ t, M.next s l = some t → G s l t ∧ Along G t ls

variable {G : σ → ℓ → σ → Prop}

theorem along_cons {l : ℓ} (h : M.next s l = some t) :
    M.Along G s (l :: ls) ↔ G s l t ∧ M.Along G t ls := by
  constructor
  · intro along
    exact along t h
  · intro both u hu
    cases h.symm.trans hu
    exact both

instance Along.decidable (G : σ → ℓ → σ → Prop) [∀ s l t, Decidable (G s l t)] :
    ∀ s ls, Decidable (M.Along G s ls)
  | _, [] => .isTrue trivial
  | s, l :: ls =>
    match h : M.next s l with
    | none => .isTrue fun t ht => by cases h.symm.trans ht
    | some t =>
      letI := Along.decidable G t ls
      decidable_of_iff (G s l t ∧ M.Along G t ls) (along_cons h).symm

theorem Along.imp {G H : σ → ℓ → σ → Prop} (gh : ∀ s l t, G s l t → H s l t) {s : σ}
    (h : M.Along G s ls) : M.Along H s ls := by
  induction ls generalizing s with
  | nil => trivial
  | cons l ls ih =>
    intro t hn
    obtain ⟨hg, rest⟩ := h t hn
    exact ⟨gh s l t hg, ih rest⟩

theorem Along.and {G H : σ → ℓ → σ → Prop} {s : σ} (left : M.Along G s ls)
    (right : M.Along H s ls) : M.Along (fun s l t => G s l t ∧ H s l t) s ls := by
  induction ls generalizing s with
  | nil => trivial
  | cons l ls ih =>
    intro t hn
    obtain ⟨hg, leftRest⟩ := left t hn
    obtain ⟨hh, rightRest⟩ := right t hn
    exact ⟨⟨hg, hh⟩, ih leftRest rightRest⟩

theorem along_of_forall_mem {P : ℓ → Prop} {s : σ} (h : ∀ l ∈ ls, P l) :
    M.Along (fun _ l _ => P l) s ls := by
  induction ls generalizing s with
  | nil => trivial
  | cons l ls ih =>
    intro t _
    exact ⟨h l List.mem_cons_self, ih fun k hk => h k (List.mem_cons_of_mem _ hk)⟩

/-- What every step satisfying `G` keeps, every run of such steps keeps. -/
theorem run_preserves_along {P : σ → Prop}
    (step : ∀ s l t, M.next s l = some t → G s l t → P s → P t) (along : M.Along G s ls)
    (hr : M.run s ls = some t) (hs : P s) : P t := by
  induction ls generalizing s with
  | nil => cases hr; exact hs
  | cons l ls ih =>
    obtain ⟨m, hm, ht⟩ := M.run_cons_eq_some.mp hr
    obtain ⟨hg, rest⟩ := along m hm
    exact ih rest ht (step s l m hm hg hs)

theorem along_append {ls ms : List ℓ} (left : M.Along G s ls) (hr : M.run s ls = some t)
    (right : M.Along G t ms) :
    M.Along G s (ls ++ ms) := by
  induction ls generalizing s with
  | nil => cases hr; exact right
  | cons l ls ih =>
    obtain ⟨m, hm, ht⟩ := M.run_cons_eq_some.mp hr
    obtain ⟨hg, rest⟩ := left m hm
    exact (along_cons hm).mpr ⟨hg, ih rest ht⟩

theorem Along.of_append {ls ms : List ℓ} (h : M.Along G s (ls ++ ms)) (hr : M.run s ls = some t) :
    M.Along G s ls ∧ M.Along G t ms := by
  induction ls generalizing s with
  | nil => cases hr; exact ⟨trivial, h⟩
  | cons l ls ih =>
    obtain ⟨m, hm, ht⟩ := M.run_cons_eq_some.mp hr
    obtain ⟨hg, rest⟩ := h m hm
    obtain ⟨left, right⟩ := ih rest ht
    exact ⟨(along_cons hm).mpr ⟨hg, left⟩, right⟩

/-- A property of the steps that follows from what they keep. -/
theorem Along.of_preserves {G H : σ → ℓ → σ → Prop} {P : σ → Prop}
    (step : ∀ s l t, M.next s l = some t → G s l t → P s → P t ∧ H s l t) {s : σ}
    (along : M.Along G s ls) (hs : P s) : M.Along H s ls := by
  induction ls generalizing s with
  | nil => trivial
  | cons l ls ih =>
    intro t ht
    obtain ⟨hg, rest⟩ := along t ht
    obtain ⟨pt, now⟩ := step s l t ht hg hs
    exact ⟨now, ih rest pt⟩

/-! ### Simulations -/

/-- `R` relates every concrete step to a (possibly empty) abstract run, from the initial
states on. -/
structure Simulation {τ : Type w} {μ : Type x} (C : Machine σ ℓ) (A : Machine τ μ)
    (R : σ → τ → Prop) : Prop where
  init : R C.init A.init
  step : ∀ s l t a, C.next s l = some t → R s a → ∃ ms b, A.run a ms = some b ∧ R t b

theorem Simulation.run {τ : Type w} {μ : Type x} {C : Machine σ ℓ} {A : Machine τ μ}
    {R : σ → τ → Prop} (sim : Simulation C A R) {a : τ} (hr : C.run s ls = some t) (hs : R s a) :
    ∃ ms b, A.run a ms = some b ∧ R t b := by
  induction ls generalizing s a with
  | nil => cases hr; exact ⟨[], a, rfl, hs⟩
  | cons l ls ih =>
    obtain ⟨m, hm, ht⟩ := C.run_cons_eq_some.mp hr
    obtain ⟨ks, c, hc, hmc⟩ := sim.step s l m a hm hs
    obtain ⟨ms, b, hb, htb⟩ := ih ht hmc
    exact ⟨ks ++ ms, b, A.run_append.mpr ⟨c, hc, hb⟩, htb⟩

/-- A simulation of the steps satisfying `G` by abstract steps satisfying `H`
carries every run of the first kind to a run of the second kind. -/
theorem run_simulates_along {τ : Type w} {μ : Type x} {C : Machine σ ℓ} {A : Machine τ μ}
    {R : σ → τ → Prop} {H : τ → μ → τ → Prop}
    (step : ∀ s l t a, C.next s l = some t → G s l t → R s a →
      ∃ ms b, A.run a ms = some b ∧ A.Along H a ms ∧ R t b) {a : τ} (along : C.Along G s ls)
    (hr : C.run s ls = some t) (hs : R s a) :
    ∃ ms b, A.run a ms = some b ∧ A.Along H a ms ∧ R t b := by
  induction ls generalizing s a with
  | nil => cases hr; exact ⟨[], a, rfl, trivial, hs⟩
  | cons l ls ih =>
    obtain ⟨m, hm, ht⟩ := C.run_cons_eq_some.mp hr
    obtain ⟨hg, rest⟩ := along m hm
    obtain ⟨ks, c, hc, hk, hmc⟩ := step s l m a hm hg hs
    obtain ⟨ms, b, hb, hm, htb⟩ := ih rest ht hmc
    exact ⟨ks ++ ms, b, A.run_append.mpr ⟨c, hc, hb⟩, along_append hk hc hm, htb⟩

/-- Every reachable concrete state is related to a reachable abstract one. -/
theorem Simulation.reachable {τ : Type w} {μ : Type x} {C : Machine σ ℓ} {A : Machine τ μ}
    {R : σ → τ → Prop} (sim : Simulation C A R) {s : σ} (h : C.Reachable s) :
    ∃ a, A.Reachable a ∧ R s a := by
  obtain ⟨ls, hr⟩ := h
  obtain ⟨ms, a, ha, hR⟩ := sim.run hr sim.init
  exact ⟨a, ⟨ms, ha⟩, hR⟩

end Machine

end LlamaServerManager.Lib
