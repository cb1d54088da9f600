import LlamaServerManager.Lib.Except

/-!
Outcomes of computations in `Except`: a value that meets a condition, or an error that is allowed.

The rules follow the shape of a `do` block; what is known of a value holds for what comes next.
-/

namespace LlamaServerManager.Lib

universe u v

variable {ε : Type u} {α β : Type v} {allowed : ε → Prop} {post post' : α → Prop}

/-- The value meets the condition, or the error is allowed: a fallible computation that
need not succeed, and is right when it does. -/
def Meets (allowed : ε → Prop) (post : α → Prop) : Except ε α → Prop
  | .ok a => post a
  | .error e => allowed e

instance (allowed : ε → Prop) (post : α → Prop) [DecidablePred allowed] [DecidablePred post] :
    DecidablePred (Meets allowed post)
  | .error e => inferInstanceAs (Decidable (allowed e))
  | .ok a => inferInstanceAs (Decidable (post a))

namespace Meets

theorem bind {x : Except ε α} {f : α → Except ε β} {post' : β → Prop}
    (meets : Meets allowed post x) (next : ∀ a, post a → Meets allowed post' (f a)) :
    Meets allowed post' (x >>= f) := by
  cases x with
  | ok a => exact next a meets
  | error e => exact meets

theorem ok {x : Except ε α} {a : α} (meets : Meets allowed post x) (run : x = .ok a) : post a := by
  rw [run] at meets
  exact meets

theorem error {x : Except ε α} {e : ε} (meets : Meets allowed post x) (run : x = .error e) :
    allowed e := by
  rw [run] at meets
  exact meets

end Meets

end LlamaServerManager.Lib
