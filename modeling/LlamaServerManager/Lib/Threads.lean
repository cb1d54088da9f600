import Mathlib.Logic.Basic

/-!
Computations that make calls and go on with what is answered. What a call does is
left open: the same `Script` can be run alone against a state, or be one of several
threads whose calls interleave (`Pool`).
-/

namespace LlamaServerManager.Lib

/-- A computation whose calls `q` are answered in `A q`. -/
inductive Script (Q : Type) (A : Q → Type) (α : Type) : Type where
  | done (a : α)
  | call (q : Q) (next : A q → Script Q A α)

namespace Script

variable {Q : Type} {A : Q → Type} {α β : Type}

def bind : Script Q A α → (α → Script Q A β) → Script Q A β
  | .done a, f => f a
  | .call q next, f => .call q fun a => (next a).bind f

instance : Monad (Script Q A) where
  pure := .done
  bind := Script.bind

def ask (q : Q) : Script Q A (A q) := .call q .done

/-- Every call satisfies `P`, whatever is answered. -/
def All (P : Q → Prop) : Script Q A α → Prop
  | .done _ => True
  | .call q next => P q ∧ ∀ a, (next a).All P

variable {P : Q → Prop}

theorem All.imp {R : Q → Prop} {x : Script Q A α} (h : x.All P) (imp : ∀ q, P q → R q) :
    x.All R := by
  induction x with
  | done a => trivial
  | call q next ih => exact ⟨imp q h.1, fun a => ih a (h.2 a)⟩

theorem All.bind {x : Script Q A α} {f : α → Script Q A β} (first : x.All P)
    (rest : ∀ a, (f a).All P) : All P (x >>= f) := by
  induction x with
  | done a => exact rest a
  | call q next ih => exact ⟨first.1, fun a => ih a (first.2 a)⟩

end Script

/-! ### Protocols -/

/-- What a computation may call in a role, and what role an answer leads to. An answer
without a next role is not expected in that role. -/
structure Protocol (R Q : Type) (A : Q → Type) where
  allowed : R → Q → Prop
  step : R → (q : Q) → A q → R → Prop

/-- A run to the end, with the states its calls were made in. -/
inductive Script.Runs {R Q α : Type} {A : Q → Type} (step : R → (q : Q) → A q → R → Prop) :
    Script Q A α → R → List R → α → R → Prop where
  | done (a : α) (r : R) : Runs step (.done a) r [] a r
  | call {q : Q} {next : A q → Script Q A α} {a : A q} {b : α} {r r' r'' : R} {rs : List R}
      (answered : step r q a r') (rest : Runs step (next a) r' rs b r'') :
      Runs step (.call q next) r (r :: rs) b r''

/-- The computation keeps to the protocol, as long as the answers do. -/
def Script.Follows {R Q α : Type} {A : Q → Type} (p : Protocol R Q A) (post : α → R → Prop) :
    Script Q A α → R → Prop
  | .done a, r => post a r
  | .call q next, r => p.allowed r q ∧ ∀ a r', p.step r q a r' → (next a).Follows p post r'

namespace Script.Follows

variable {R Q α β : Type} {A : Q → Type} {p : Protocol R Q A} {r : R}

theorem mono {post post' : α → R → Prop} {x : Script Q A α} (h : x.Follows p post r)
    (imp : ∀ a r, post a r → post' a r) : x.Follows p post' r := by
  induction x generalizing r with
  | done a => exact imp a r h
  | call q next ih => exact ⟨h.1, fun a r' step => ih a (h.2 a r' step)⟩

theorem bind {post : β → R → Prop} {x : Script Q A α} {f : α → Script Q A β}
    (h : x.Follows p (fun a => (f a).Follows p post) r) : (x.bind f).Follows p post r := by
  induction x generalizing r with
  | done a => exact h
  | call q next ih => exact ⟨h.1, fun a r' step => ih a (h.2 a r' step)⟩

/-- A computation that makes no call leading out of its role. -/
theorem of_all {P : Q → Prop} {x : Script Q A α} (h : x.All P)
    (allowed : ∀ q, P q → p.allowed r q) (stays : ∀ q, P q → ∀ a r', p.step r q a r' → r' = r) :
    x.Follows p (fun _ r' => r' = r) r := by
  induction x with
  | done a => rfl
  | call q next ih =>
    refine ⟨allowed q h.1, fun a r' step => ?_⟩
    rw [stays q h.1 a r' step]
    exact ih a (h.2 a)

/-- What is required of every call holds wherever one is made. -/
theorem visited {post : α → R → Prop} {x : Script Q A α} {rs : List R} {a : α} {r' : R}
    (h : x.Follows p post r) (ran : x.Runs p.step r rs a r') :
    (∀ r₁ ∈ rs, ∃ q, p.allowed r₁ q) ∧ post a r' := by
  induction ran with
  | done => exact ⟨fun _ mem => (nomatch mem), h⟩
  | call step _ ih =>
    obtain ⟨earlier, last⟩ := ih (h.2 _ _ step)
    refine ⟨fun r₁ mem => ?_, last⟩
    cases mem with
    | head => exact ⟨_, h.1⟩
    | tail _ mem => exact earlier r₁ mem

end Script.Follows

/-! ### Executing a computation -/

/-- A run with the answers of a function, as far as it gives any. -/
def Script.execute {σ Q α : Type} {A : Q → Type} (serve : (q : Q) → σ → Option (A q × σ)) :
    Script Q A α → σ → Option (List σ × α × σ)
  | .done a, s => some ([], a, s)
  | .call q next, s => do
    let (a, s') ← serve q s
    let (visited, b, s'') ← (next a).execute serve s'
    return (s :: visited, b, s'')

theorem Script.execute_runs {σ Q α : Type} {A : Q → Type} {step : σ → (q : Q) → A q → σ → Prop}
    {serve : (q : Q) → σ → Option (A q × σ)}
    (serves : ∀ q s a s', serve q s = some (a, s') → step s q a s') {x : Script Q A α} {s s' : σ}
    {visited : List σ} {a : α} (h : x.execute serve s = some (visited, a, s')) :
    x.Runs step s visited a s' := by
  induction x generalizing s visited with
  | done b =>
    cases h
    exact .done _ _
  | call q next ih =>
    obtain ⟨⟨b, s₁⟩, served, h⟩ := Option.bind_eq_some_iff.mp h
    obtain ⟨⟨rest, c, s₂⟩, ran, h⟩ := Option.bind_eq_some_iff.mp h
    cases h
    exact .call (serves q s b s₁ served) (ih b ran)

/-! ### Threads over a shared state -/

/-- A thread knows what it was started for. -/
structure Thread (τ Q : Type) (A : Q → Type) where
  tag : τ
  rest : Script Q A Unit

/-- A state and the threads that share it. -/
structure Pool (σ τ Q : Type) (A : Q → Type) where
  state : σ
  threads : List (Thread τ Q A)

namespace Pool

variable {σ τ Q : Type} {A : Q → Type} {pool pool' : Pool σ τ Q A}

def spawn (thread : Thread τ Q A) (pool : Pool σ τ Q A) : Pool σ τ Q A :=
  { pool with threads := pool.threads ++ [thread] }

/-- The thread makes its next call. -/
def advance (run : (q : Q) → σ → A q × σ) (k : Nat) (pool : Pool σ τ Q A) :
    Option (Pool σ τ Q A) :=
  match pool.threads[k]? with
  | some ⟨tag, .call q next⟩ =>
    let (a, state) := run q pool.state
    some ⟨state, pool.threads.set k ⟨tag, next a⟩⟩
  | _ => none

/-- What the thread was about to call is all that happens. -/
theorem advance_eq_some {run : (q : Q) → σ → A q × σ} {k : Nat}
    (h : pool.advance run k = some pool') :
    ∃ tag q next, pool.threads[k]? = some ⟨tag, .call q next⟩ ∧
      pool' = ⟨(run q pool.state).2, pool.threads.set k ⟨tag, next (run q pool.state).1⟩⟩ := by
  unfold advance at h
  split at h
  · next tag q next found => exact ⟨tag, q, next, found, (Option.some.inj h).symm⟩
  · cases h

end Pool

end LlamaServerManager.Lib
