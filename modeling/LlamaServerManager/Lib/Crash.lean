/-!
Programs over a durable state that a fault or a crash can stop at any call.

A program is a sequence of calls. `fates` decides of each call whether it does
what it does, fails, fails although it had its effect, or is where the process
dies; every way a run can be stopped is one choice of `fates`. A triple
`Holds P x Q S` says of all of them at once: started in `P`, the program returns
a value in `Q`, or stops, by an error or a crash, in `S`.
-/

namespace LlamaServerManager.Lib

variable {σ ε α β : Type}

/-- What becomes of one call: it does what it does, fails, has its effect and fails
nevertheless, or is where the process dies. -/
inductive Fate where
  | done
  | failed
  /-- The call reports a failure after its effect. -/
  | late
  | crashed
deriving DecidableEq, Repr

/-- How a program ends: with a value, with an error that its caller sees, or with the
process, so that only the state is left. -/
inductive Ended (ε α : Type) where
  | returned (a : α)
  | raised (e : ε)
  | crashed
deriving DecidableEq, Repr

/-- A program: from the fates, the number of calls made so far and the state, how it
ends, the number of calls it has made by then and the state it leaves. -/
def Prog (σ ε α : Type) : Type := (Nat → Fate) → Nat → σ → Ended ε α × Nat × σ

namespace Prog

/-- No call fails. -/
def calm : Nat → Fate := fun _ => .done

/-- The state a run from `s` leaves. -/
def final (x : Prog σ ε α) (fates : Nat → Fate) (s : σ) : σ := (x fates 0 s).2.2

/-- How a run from `s` ends. -/
def ended (x : Prog σ ε α) (fates : Nat → Fate) (s : σ) : Ended ε α := (x fates 0 s).1

/-- What a program can yield without dying, if its calls fare as `fates` allows. It may
be a part of a longer program, so any number of calls may come before it. -/
def Yields (allowed : (Nat → Fate) → Prop) (x : Prog σ ε α) (s : σ) (result : Except ε α)
    (t : σ) : Prop :=
  ∃ fates n m, allowed fates ∧
    x fates n s = (match result with | .ok a => .returned a | .error e => .raised e, m, t)

/-- A run no call of which fails. It is `none` only for a program that dies by itself,
which none of the constructions below does (`Alive`). -/
def calmly (x : Prog σ ε α) (s : σ) : Option (Except ε α × σ) :=
  match x calm 0 s with
  | (.returned a, _, t) => some (.ok a, t)
  | (.raised e, _, t) => some (.error e, t)
  | (.crashed, _, _) => none

variable {x : Prog σ ε α}

theorem calmly_yields {s t : σ} {result : Except ε α} {allowed : (Nat → Fate) → Prop}
    (quiet : allowed calm) (h : x.calmly s = some (result, t)) :
    x.Yields allowed s result t := by
  unfold calmly at h
  split at h
  · next a m t' eq =>
      cases h
      exact ⟨calm, 0, m, quiet, eq⟩
  · next e m t' eq =>
      cases h
      exact ⟨calm, 0, m, quiet, eq⟩
  · cases h

instance : Monad (Prog σ ε) where
  pure a := fun _ n s => (.returned a, n, s)
  bind x f := fun fates n s =>
    match x fates n s with
    | (.returned a, n, s) => f a fates n s
    | (.raised e, n, s) => (.raised e, n, s)
    | (.crashed, n, s) => (.crashed, n, s)

def raise (e : ε) : Prog σ ε α := fun _ n s => (.raised e, n, s)

/-- An error unless the condition holds. -/
def require (c : Prop) [Decidable c] (e : ε) : Prog σ ε Unit :=
  if c then pure () else raise e

/-- A call that changes the state by `f`. One that fails or dies leaves `torn`, which
says how much of its effect can be there by then; an error of `f` itself leaves the
state. -/
def call (f : σ → Except ε σ) (fault : ε) (torn : σ → σ) : Prog σ ε Unit := fun fates n s =>
  match fates n, f s with
  | .done, .ok t => (.returned (), n + 1, t)
  | .done, .error e => (.raised e, n + 1, s)
  | .failed, _ => (.raised fault, n + 1, torn s)
  | .late, .ok t => (.raised fault, n + 1, t)
  | .late, .error e => (.raised e, n + 1, s)
  | .crashed, _ => (.crashed, n + 1, torn s)

/-- A call with no effect on the state. It can fail with `fault`, or with what `f` says
is wrong with the state. -/
def read (f : σ → Except ε α) (fault : ε) : Prog σ ε α := fun fates n s =>
  match fates n, f s with
  | .done, .ok a => (.returned a, n + 1, s)
  | .done, .error e => (.raised e, n + 1, s)
  | .failed, _ => (.raised fault, n + 1, s)
  | .late, _ => (.raised fault, n + 1, s)
  | .crashed, _ => (.crashed, n + 1, s)

/-- A call with no effect that cannot fail, only die: a look at the state whose own
failure the program takes for an answer, or is taken not to happen. -/
def look (f : σ → α) : Prog σ ε α := fun fates n s =>
  match fates n with
  | .crashed => (.crashed, n + 1, s)
  | _ => (.returned (f s), n + 1, s)

/-- What the state shows, without a call: the number of calls is the same, so that no
fate is spent on it. -/
def view (f : σ → α) : Prog σ ε α := fun _ n s => (.returned (f s), n, s)

/-- A call that changes the state by `f` and fails only by dying before it. -/
def effect (f : σ → σ) : Prog σ ε Unit := fun fates n s =>
  match fates n with
  | .crashed => (.crashed, n + 1, s)
  | _ => (.returned (), n + 1, f s)

/-- The process dies at the given call, or at none. -/
def crashAt (crash : Option Nat) : Nat → Fate := fun n =>
  if crash = some n then .crashed else .done

/-- A result that depends on no state. -/
def lift : Except ε α → Prog σ ε α
  | .ok a => pure a
  | .error e => raise e

/-- Run `cleanup` after an error, whatever comes of it, and raise the error. -/
def onError (x : Prog σ ε α) (cleanup : Prog σ ε Unit) : Prog σ ε α := fun fates n s =>
  match x fates n s with
  | (.raised e, n, s) =>
    match cleanup fates n s with
    | (.crashed, n, s) => (.crashed, n, s)
    | (_, n, s) => (.raised e, n, s)
  | ended => ended

/-- The result of a part, an error included: the program goes on after an error of the
part, and ends with the process where the part does. -/
def attempt (x : Prog σ ε α) : Prog σ ε (Except ε α) := fun fates n s =>
  match x fates n s with
  | (.returned a, n, s) => (.returned (.ok a), n, s)
  | (.raised e, n, s) => (.returned (.error e), n, s)
  | (.crashed, n, s) => (.crashed, n, s)

/-! ### Evaluation -/

variable {fates : Nat → Fate}

theorem bind_eq (x : Prog σ ε α) (f : α → Prog σ ε β) (n : Nat) (s : σ) :
    (x >>= f) fates n s = match x fates n s with
      | (.returned a, n, s) => f a fates n s
      | (.raised e, n, s) => (.raised e, n, s)
      | (.crashed, n, s) => (.crashed, n, s) := rfl

theorem bind_of_returned {f : α → Prog σ ε β} {n m : Nat} {s t : σ} {a : α}
    (h : x fates n s = (.returned a, m, t)) :
    (x >>= f) fates n s = f a fates m t := by
  rw [bind_eq, h]

theorem bind_of_crashed {f : α → Prog σ ε β} {n m : Nat} {s t : σ}
    (h : x fates n s = (.crashed, m, t)) : (x >>= f) fates n s = (.crashed, m, t) := by
  rw [bind_eq, h]

theorem bind_congr {x y : Prog σ ε α} {f : α → Prog σ ε β} {n m : Nat} {s t : σ}
    (h : x fates n s = y fates m t) : (x >>= f) fates n s = (y >>= f) fates m t := by
  rw [bind_eq, bind_eq, h]

theorem attempt_of_returned {n m : Nat} {s t : σ} {a : α} (h : x fates n s = (.returned a, m, t)) :
    (attempt x) fates n s = (.returned (.ok a), m, t) := by
  unfold attempt
  rw [h]

theorem attempt_of_crashed {n m : Nat} {s t : σ} (h : x fates n s = (.crashed, m, t)) :
    (attempt x) fates n s = (.crashed, m, t) := by
  unfold attempt
  rw [h]

theorem view_bind (f : σ → α) (g : α → Prog σ ε β) (fates : Nat → Fate) (n : Nat) (s : σ) :
    (view f >>= g) fates n s = g (f s) fates n s := rfl

theorem effect_crashAt (f : σ → σ) (crash : Option Nat) (n : Nat) (s : σ) :
    (effect f : Prog σ ε Unit) (crashAt crash) n s =
      if crash = some n then (.crashed, n + 1, s) else (.returned (), n + 1, f s) := by
  unfold effect crashAt
  by_cases h : crash = some n
  · rw [if_pos h, if_pos h]
  · rw [if_neg h, if_neg h]

theorem effect_bind_crashAt (f : σ → σ) (g : Unit → Prog σ ε β) (crash : Option Nat) (n : Nat)
    (s : σ) :
    (effect f >>= g) (crashAt crash) n s =
      if crash = some n then (.crashed, n + 1, s) else g () (crashAt crash) (n + 1) (f s) := by
  have step : (effect f : Prog σ ε Unit) (crashAt crash) n s = _ := effect_crashAt f crash n s
  by_cases h : crash = some n
  · rw [if_pos h] at step ⊢
    exact bind_of_crashed step
  · rw [if_neg h] at step ⊢
    exact bind_of_returned step

theorem require_bind (c : Prop) [Decidable c] (e : ε) (g : Unit → Prog σ ε β)
    (fates : Nat → Fate) (n : Nat) (s : σ) :
    (require c e >>= g) fates n s = if c then g () fates n s else (.raised e, n, s) := by
  unfold require
  by_cases h : c
  · rw [if_pos h, if_pos h]
    rfl
  · rw [if_neg h, if_neg h]
    rfl

theorem lift_bind (x : Except ε α) (g : α → Prog σ ε β) (fates : Nat → Fate) (n : Nat) (s : σ) :
    (lift x >>= g) fates n s =
      match x with
      | .ok a => g a fates n s
      | .error e => (.raised e, n, s) := by
  cases x <;> rfl

/-! ### Triples -/

/-- Returned values meet `Q`, every other end `S`: a state that an error leaves and one
that a crash leaves are not told apart. -/
def Meets (Q : α → σ → Prop) (S : σ → Prop) : Ended ε α × Nat × σ → Prop
  | (.returned a, _, t) => Q a t
  | (.raised _, _, t) => S t
  | (.crashed, _, t) => S t

/-- The triple: from `P` the program returns in `Q` or stops in `S`, whatever becomes of
its calls and however many of them were made before. -/
def Holds (P : σ → Prop) (x : Prog σ ε α) (Q : α → σ → Prop) (S : σ → Prop) : Prop :=
  ∀ fates n s, P s → Meets Q S (x fates n s)

namespace Holds

variable {P P' S S' : σ → Prop} {Q : α → σ → Prop} {Q' : β → σ → Prop}

theorem pure {a : α} (h : ∀ s, P s → Q a s) :
    Holds P (Pure.pure a : Prog σ ε α) Q S :=
  fun _ _ s hs => h s hs

theorem raise {e : ε} (h : ∀ s, P s → S s) : Holds P (Prog.raise e : Prog σ ε α) Q S :=
  fun _ _ s hs => h s hs

variable {x : Prog σ ε α}

theorem weaken {R : α → σ → Prop} (h : Holds P x R S) (pre : ∀ s, P' s → P s)
    (post : ∀ a s, R a s → Q a s) (stop : ∀ s, S s → S' s) :
    Holds P' x Q S' := by
  intro fates n s hs
  have run := h fates n s (pre s hs)
  unfold Meets at run ⊢
  split at run
  · exact post _ _ run
  · exact stop _ run
  · exact stop _ run

theorem post {R : α → σ → Prop} (h : Holds P x R S) (post : ∀ a s, R a s → Q a s) : Holds P x Q S :=
  h.weaken (fun _ hs => hs) post fun _ hs => hs

/-- A fact about no state holds from then on. -/
theorem assume {c : Prop} (h : c → Holds P x Q S) : Holds (fun s => P s ∧ c) x Q S :=
  fun fates n s hs => h hs.2 fates n s hs.1

/-- From each state on its own. -/
theorem each (h : ∀ s, P s → Holds (fun t => t = s) x Q S) : Holds P x Q S :=
  fun fates n s hs => h s hs fates n s rfl

theorem bind {f : α → Prog σ ε β} (first : Holds P x Q S) (rest : ∀ a, Holds (Q a) (f a) Q' S) :
    Holds P (x >>= f) Q' S := by
  intro fates n s hs
  have run := first fates n s hs
  rw [bind_eq]
  generalize x fates n s = result at run ⊢
  rcases result with ⟨a | e | -, m, t⟩
  · exact rest a fates m t run
  · exact run
  · exact run

theorem require {c : Prop} [Decidable c] {e : ε} (h : ∀ s, P s → S s) :
    Holds P (Prog.require c e : Prog σ ε Unit) (fun _ s => P s ∧ c) S := by
  unfold Prog.require
  split
  · exact .pure fun s hs => ⟨hs, ‹c›⟩
  · exact .raise h

/-- The effect of a call is all it can do, apart from what it leaves torn. -/
theorem call {f : σ → Except ε σ} {fault : ε} {torn : σ → σ} {R : Unit → σ → Prop}
    (done : ∀ s t, P s → f s = .ok t → R () t) (stop : ∀ s, P s → S s)
    (late : ∀ s t, P s → f s = .ok t → S t) (torn_ : ∀ s, P s → S (torn s)) :
    Holds P (Prog.call f fault torn) R S := by
  intro fates n s hs
  unfold Prog.call
  cases fates n with
  | done =>
    cases h : f s with
    | ok t => exact done s t hs h
    | error e => exact stop s hs
  | failed => exact torn_ s hs
  | late =>
    cases h : f s with
    | ok t => exact late s t hs h
    | error e => exact stop s hs
  | crashed => exact torn_ s hs

theorem read {f : σ → Except ε α} {fault : ε} (stop : ∀ s, P s → S s) :
    Holds P (Prog.read f fault) (fun a s => P s ∧ f s = .ok a) S := by
  intro fates n s hs
  unfold Prog.read
  cases fates n with
  | done =>
    cases h : f s with
    | ok a => exact ⟨hs, h⟩
    | error e => exact stop s hs
  | failed | late | crashed => exact stop s hs

theorem look {f : σ → α} (stop : ∀ s, P s → S s) :
    Holds P (Prog.look f : Prog σ ε α) (fun a s => P s ∧ f s = a) S := by
  intro fates n s hs
  unfold Prog.look
  cases fates n with
  | crashed => exact stop s hs
  | done | failed | late => exact ⟨hs, rfl⟩

theorem view {f : σ → α} : Holds P (Prog.view f : Prog σ ε α) (fun a s => P s ∧ f s = a) S :=
  fun _ _ _ hs => ⟨hs, rfl⟩

theorem effect {f : σ → σ} {R : Unit → σ → Prop} (done : ∀ s, P s → R () (f s))
    (stop : ∀ s, P s → S s) : Holds P (Prog.effect f : Prog σ ε Unit) R S := by
  intro fates n s hs
  unfold Prog.effect
  cases fates n with
  | crashed => exact stop s hs
  | done | failed | late => exact done s hs

theorem lift {x : Except ε α} (stop : ∀ s, P s → S s) :
    Holds P (Prog.lift x : Prog σ ε α) (fun a s => P s ∧ x = .ok a) S := by
  cases x with
  | ok a => exact .pure fun s hs => ⟨hs, rfl⟩
  | error e => exact .raise stop

theorem onError {cleanup : Prog σ ε Unit} (main : Holds P x Q S)
    (clean : Holds S cleanup (fun _ => S) S) : Holds P (Prog.onError x cleanup) Q S := by
  intro fates n s hs
  have run := main fates n s hs
  unfold Prog.onError
  generalize x fates n s = result at run ⊢
  rcases result with ⟨a | e | -, m, t⟩
  · exact run
  · have tidy := clean fates m t run
    dsimp only
    generalize cleanup fates m t = tidied at tidy ⊢
    rcases tidied with ⟨a | e' | -, k, u⟩
    · exact tidy
    · exact tidy
    · exact tidy
  · exact run

theorem attempt (h : Holds P x Q S) : Holds P (Prog.attempt x) (fun result s => match result with
      | .ok a => Q a s
      | .error _ => S s) S := by
  intro fates n s hs
  have run := h fates n s hs
  unfold Prog.attempt
  generalize x fates n s = result at run ⊢
  rcases result with ⟨a | e | -, m, t⟩
  · exact run
  · exact run
  · exact run

/-- What a triple says of one run. -/
theorem ended (h : Holds P x Q S) (fates : Nat → Fate) {s : σ} (hs : P s) :
    (∀ a, x.ended fates s = .returned a → Q a (x.final fates s)) ∧
      ((∀ a, x.ended fates s ≠ .returned a) → S (x.final fates s)) := by
  have run := h fates 0 s hs
  unfold Prog.ended Prog.final
  generalize x fates 0 s = result at run ⊢
  rcases result with ⟨a | e | -, m, t⟩
  · refine ⟨?_, fun none => absurd rfl (none a)⟩
    intro b same
    cases same
    exact run
  · exact ⟨fun _ same => (nomatch same), fun _ => run⟩
  · exact ⟨fun _ same => (nomatch same), fun _ => run⟩

/-- What holds at every end of a run. -/
theorem final {R : σ → Prop} (h : Holds P x Q S) (fates : Nat → Fate) {s : σ} (hs : P s)
    (returned : ∀ a t, Q a t → R t) (stopped : ∀ t, S t → R t) :
    R (x.final fates s) := by
  have run := h fates 0 s hs
  unfold Prog.final
  generalize x fates 0 s = result at run ⊢
  rcases result with ⟨a | e | -, m, t⟩
  · exact returned a t run
  · exact stopped t run
  · exact stopped t run

/-- What a triple says of what a program yields. -/
theorem yields (h : Holds P x Q S) {allowed : (Nat → Fate) → Prop} {s t : σ} {result : Except ε α}
    (hs : P s) (ran : x.Yields allowed s result t) :
    match result with
    | .ok a => Q a t
    | .error _ => S t := by
  obtain ⟨fates, n, m, -, eq⟩ := ran
  have run := h fates n s hs
  rw [eq] at run
  cases result with
  | ok a => exact run
  | error e => exact run

end Holds

/-! ### What no end of a program changes -/

/-- `P` is kept, however the program ends. Such programs are put together without a word
on what they return. -/
def Stable (P : σ → Prop) (x : Prog σ ε α) : Prop := Holds P x (fun _ => P) P

namespace Stable

variable {P : σ → Prop}

theorem pure (a : α) : Stable P (Pure.pure a : Prog σ ε α) := Holds.pure fun _ hs => hs

variable {x : Prog σ ε α}

theorem bind {f : α → Prog σ ε β} (first : Stable P x) (rest : ∀ a, Stable P (f a)) :
    Stable P (x >>= f) := Holds.bind first rest

/-- The rest of a program may rely on what the first part establishes. -/
theorem bind_of {f : α → Prog σ ε β} {c : α → Prop} (first : Holds P x (fun a s => P s ∧ c a) P)
    (rest : ∀ a, c a → Stable P (f a)) :
    Stable P (x >>= f) := Holds.bind first fun a => .assume fun known => rest a known

theorem require (c : Prop) [Decidable c] (e : ε) :
    Stable P (Prog.require c e : Prog σ ε Unit) :=
  (Holds.require fun _ hs => hs).post fun _ _ h => h.1

theorem lift (x : Except ε α) : Stable P (Prog.lift x : Prog σ ε α) :=
  (Holds.lift fun _ hs => hs).post fun _ _ h => h.1

theorem read (f : σ → Except ε α) (fault : ε) : Stable P (Prog.read f fault) :=
  (Holds.read fun _ hs => hs).post fun _ _ h => h.1

theorem look (f : σ → α) : Stable P (Prog.look f : Prog σ ε α) :=
  (Holds.look fun _ hs => hs).post fun _ _ h => h.1

theorem view (f : σ → α) : Stable P (Prog.view f : Prog σ ε α) :=
  Holds.view.post fun _ _ h => h.1

theorem effect {f : σ → σ} (kept : ∀ s, P s → P (f s)) : Stable P (Prog.effect f : Prog σ ε Unit) :=
  Holds.effect kept fun _ hs => hs

theorem attempt (h : Stable P x) : Stable P (Prog.attempt x) :=
  (Holds.attempt h).post fun result _ hs => match result with
    | .ok _ => hs
    | .error _ => hs

theorem onError {cleanup : Prog σ ε Unit} (main : Stable P x) (clean : Stable P cleanup) :
    Stable P (Prog.onError x cleanup) := Holds.onError main clean

theorem final (h : Stable P x) (fates : Nat → Fate) {s : σ} (hs : P s) : P (x.final fates s) := by
  have run := h fates 0 s hs
  unfold Prog.final
  generalize x fates 0 s = result at run ⊢
  rcases result with ⟨a | e | -, m, t⟩ <;> exact run

theorem yields (h : Stable P x) {allowed : (Nat → Fate) → Prop} {s t : σ} {result : Except ε α}
    (hs : P s) (ran : x.Yields allowed s result t) : P t := by
  have after := Holds.yields h hs ran
  cases result with
  | ok a => exact after
  | error e => exact after

end Stable

end Prog

end LlamaServerManager.Lib
