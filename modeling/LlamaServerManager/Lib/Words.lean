import Mathlib.Algebra.Group.Int.Defs
import Mathlib.Algebra.Group.Nat.Defs
import Mathlib.Data.Option.Basic

/-!
Arithmetic of `u64`: unchecked, where it wraps around, and checked.
-/

namespace LlamaServerManager.Lib.Words

/-- Unchecked addition wraps around. -/
def addU64 (a b : Nat) : Nat := (a + b) % 2 ^ 64

def checkedAdd (a b : Nat) : Option Nat := if a + b < 2 ^ 64 then some (a + b) else none

def checkedMul (a b : Nat) : Option Nat := if a * b < 2 ^ 64 then some (a * b) else none

def checkedSub (a b : Nat) : Option Nat := if b ≤ a then some (a - b) else none

/-- Two's complement. -/
def signed (bits n : Nat) : Int := if n < 2 ^ (bits - 1) then n else (n : Int) - 2 ^ bits

theorem checkedAdd_eq_some {a b c : Nat} :
    checkedAdd a b = some c ↔ a + b < 2 ^ 64 ∧ c = a + b := by
  unfold checkedAdd
  split
  · rename_i fits
    exact ⟨fun same => ⟨fits, (Option.some.inj same).symm⟩, fun same => congrArg some same.2.symm⟩
  · rename_i overflows
    exact ⟨fun same => (nomatch same), fun same => absurd same.1 overflows⟩

theorem checkedSub_eq_some {a b c : Nat} : checkedSub a b = some c ↔ a = c + b := by
  unfold checkedSub
  split
  · simp only [Option.some.injEq]
    omega
  · simp only [reduceCtorEq, false_iff]
    omega

end LlamaServerManager.Lib.Words
