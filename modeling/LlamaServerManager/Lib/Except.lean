import Mathlib.Data.Option.Basic

/-!
Inversion of computations in `Except`: what a successful or failed sequence says
about its parts. Proofs about fallible code peel a `do` block apart with these.
-/

namespace LlamaServerManager.Lib

universe u v

variable {ε : Type u} {α β : Type v}

theorem bind_eq_ok {x : Except ε α} {f : α → Except ε β} {b : β} :
    x >>= f = .ok b ↔ ∃ a, x = .ok a ∧ f a = .ok b := by
  cases x with
  | error e =>
    constructor
    · intro h
      cases h
    · rintro ⟨a, h, -⟩
      cases h
  | ok a =>
    constructor
    · intro h
      exact ⟨a, rfl, h⟩
    · rintro ⟨_, h, hf⟩
      cases h
      exact hf

theorem elim_eq_ok {ε α : Type} {o : Option α} {e : ε} {a : α} :
    o.elim (Except.error e) .ok = .ok a ↔ o = some a := by
  cases o with
  | none => exact ⟨fun h => (nomatch h), fun h => (nomatch h)⟩
  | some b => simp

theorem eq_ok_of_mapError {ε' : Type u} {f : ε → ε'} {x : Except ε α} {a : α}
    (ok : x.mapError f = .ok a) : x = .ok a := by
  cases x with
  | error e => cases ok
  | ok b => rw [Except.ok.inj ok]

end LlamaServerManager.Lib
