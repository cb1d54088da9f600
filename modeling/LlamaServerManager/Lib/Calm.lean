import LlamaServerManager.Lib.Crash

/-!
Runs no call of which fails. `Calm P x Q S` says of such a run from `P` that it
returns a value in `Q` or raises an error in `S`; it does not die. Where `S` is
false the program returns.
-/

namespace LlamaServerManager.Lib.Prog

variable {σ ε α β : Type}

/-- Returned values meet `Q`, errors `S`, and the process does not die. -/
def Fares (Q : α → σ → Prop) (S : σ → Prop) : Ended ε α × Nat × σ → Prop
  | (.returned a, _, t) => Q a t
  | (.raised _, _, t) => S t
  | (.crashed, _, _) => False

/-- The triple of the runs no call of which fails, from any number of calls on. -/
def Calm (P : σ → Prop) (x : Prog σ ε α) (Q : α → σ → Prop) (S : σ → Prop) : Prop :=
  ∀ n s, P s → Fares Q S (x calm n s)

namespace Calm

variable {P P' S S' : σ → Prop} {Q : α → σ → Prop} {Q' : β → σ → Prop}

theorem pure {a : α} (h : ∀ s, P s → Q a s) : Calm P (Pure.pure a : Prog σ ε α) Q S :=
  fun _ s hs => h s hs

theorem raise {e : ε} (h : ∀ s, P s → S s) : Calm P (Prog.raise e : Prog σ ε α) Q S :=
  fun _ s hs => h s hs

variable {x : Prog σ ε α}

theorem weaken {R : α → σ → Prop} (h : Calm P x R S) (pre : ∀ s, P' s → P s)
    (post : ∀ a s, R a s → Q a s) (stop : ∀ s, S s → S' s) :
    Calm P' x Q S' := by
  intro n s hs
  have run := h n s (pre s hs)
  generalize x calm n s = result at run ⊢
  rcases result with ⟨a | e | -, m, t⟩
  · exact post a t run
  · exact stop t run
  · exact run

theorem post {R : α → σ → Prop} (h : Calm P x R S) (post : ∀ a s, R a s → Q a s) : Calm P x Q S :=
  h.weaken (fun _ hs => hs) post fun _ hs => hs

theorem bind {f : α → Prog σ ε β} (first : Calm P x Q S) (rest : ∀ a, Calm (Q a) (f a) Q' S) :
    Calm P (x >>= f) Q' S := by
  intro n s hs
  have run := first n s hs
  change Fares Q' S (match x calm n s with
    | (.returned a, n, s) => f a calm n s
    | (.raised e, n, s) => (.raised e, n, s)
    | (.crashed, n, s) => (.crashed, n, s))
  generalize x calm n s = result at run ⊢
  rcases result with ⟨a | e | -, m, t⟩
  · exact rest a m t run
  · exact run
  · exact run

/-- From each state on its own. -/
theorem each (h : ∀ s, P s → Calm (fun t => t = s) x Q S) : Calm P x Q S :=
  fun n s hs => h s hs n s rfl

theorem lift {x : Except ε α} (stop : ∀ s e, P s → x = .error e → S s) :
    Calm P (Prog.lift x : Prog σ ε α) (fun a s => P s ∧ x = .ok a) S := by
  cases x with
  | ok a => exact .pure fun s hs => ⟨hs, rfl⟩
  | error e => exact .raise fun s hs => stop s e hs rfl

theorem read {f : σ → Except ε α} {fault : ε} (stop : ∀ s e, P s → f s = .error e → S s) :
    Calm P (Prog.read f fault) (fun a s => P s ∧ f s = .ok a) S := by
  intro n s hs
  unfold Prog.read calm
  cases h : f s with
  | ok a => exact ⟨hs, h⟩
  | error e => exact stop s e hs h

theorem look {f : σ → α} : Calm P (Prog.look f : Prog σ ε α) (fun a s => P s ∧ f s = a) S :=
  fun _ _ hs => ⟨hs, rfl⟩

theorem call {f : σ → Except ε σ} {fault : ε} {torn : σ → σ} {R : Unit → σ → Prop}
    (done : ∀ s t, P s → f s = .ok t → R () t) (stop : ∀ s e, P s → f s = .error e → S s) :
    Calm P (Prog.call f fault torn) R S := by
  intro n s hs
  unfold Prog.call calm
  cases h : f s with
  | ok t => exact done s t hs h
  | error e => exact stop s e hs h

theorem attempt (h : Calm P x Q S) : Calm P (Prog.attempt x) (fun result s => match result with
      | .ok a => Q a s
      | .error _ => S s) S' := by
  intro n s hs
  have run := h n s hs
  unfold Prog.attempt
  generalize x calm n s = result at run ⊢
  rcases result with ⟨a | e | -, m, t⟩
  · exact run
  · exact run
  · exact run

/-- What a run yields. -/
theorem calmly (h : Calm P x Q S) {s : σ} (hs : P s) :
    (∃ a t, x.calmly s = some (.ok a, t) ∧ Q a t) ∨
      ∃ e t, x.calmly s = some (.error e, t) ∧ S t := by
  have run := h 0 s hs
  unfold Prog.calmly
  generalize x calm 0 s = result at run ⊢
  rcases result with ⟨a | e | -, m, t⟩
  · exact .inl ⟨a, t, rfl, run⟩
  · exact .inr ⟨e, t, rfl, run⟩
  · exact run.elim

end Calm

/-! ### Programs that do not die by themselves -/

/-- Without a fault the program returns or raises an error: it dies only where a call of
it does. -/
def Alive (x : Prog σ ε α) : Prop := ∀ n s, (x calm n s).1 ≠ .crashed

namespace Alive

theorem pure (a : α) : Alive (Pure.pure a : Prog σ ε α) := fun _ _ h => (nomatch h)

theorem lift (x : Except ε α) : Alive (Prog.lift x : Prog σ ε α) := by
  cases x <;> exact fun _ _ h => (nomatch h)

theorem read (f : σ → Except ε α) (fault : ε) : Alive (Prog.read f fault) := by
  intro n s
  unfold Prog.read calm
  cases f s <;> exact fun h => (nomatch h)

theorem call (f : σ → Except ε σ) (fault : ε) (torn : σ → σ) :
    Alive (Prog.call f fault torn) := by
  intro n s
  unfold Prog.call calm
  cases f s <;> exact fun h => (nomatch h)

theorem bind {x : Prog σ ε α} {f : α → Prog σ ε β} (first : Alive x) (rest : ∀ a, Alive (f a)) :
    Alive (x >>= f) := by
  intro n s
  have run := first n s
  change (match x calm n s with
    | (.returned a, n, s) => f a calm n s
    | (.raised e, n, s) => (.raised e, n, s)
    | (.crashed, n, s) => (.crashed, n, s)).1 ≠ _
  generalize x calm n s = result at run ⊢
  rcases result with ⟨a | e | -, m, t⟩
  · exact rest a m t
  · exact fun h => (nomatch h)
  · exact absurd rfl run

theorem attempt {x : Prog σ ε α} (h : Alive x) : Alive (Prog.attempt x) := by
  intro n s
  have run := h n s
  unfold Prog.attempt
  generalize x calm n s = result at run ⊢
  rcases result with ⟨a | e | -, m, t⟩
  · exact fun h => (nomatch h)
  · exact fun h => (nomatch h)
  · exact absurd rfl run

end Alive

/-- A triple of all runs is one of the calm ones. -/
theorem Calm.of_holds {P S : σ → Prop} {Q : α → σ → Prop} {x : Prog σ ε α} (h : Holds P x Q S)
    (alive : Alive x) : Calm P x Q S := by
  intro n s hs
  have run := h calm n s hs
  have lives := alive n s
  generalize x calm n s = result at run lives ⊢
  rcases result with ⟨a | e | -, m, t⟩
  · exact run
  · exact run
  · exact absurd rfl lives

end LlamaServerManager.Lib.Prog
