import LlamaServerManager.Lib.Dict
import LlamaServerManager.Models

/-!
The admission state of `proxy_admission.rs`: the tickets waiting and admitted,
the per-key counters and the round-robin order of the keys. Every function here
is the body of one critical section of the source (the code between taking the
state mutex and releasing it).
-/

namespace LlamaServerManager.Admission

open Lib

def maxWaiters : Nat := 4096
def maxKeyWaiters : Nat := 256

/-- `State` of `proxy_admission.rs`: the settings, the tickets that wait, the ring of
the keys' turns, and who is admitted, under its one mutex. -/
structure State where
  limit : Nat
  fair : Bool := false
  limits : Dict String Nat := ∅
  /-- The next ticket, a `u64`. -/
  next : Nat := 0
  waiting : List (Nat × String) := []
  turns : List String := []
  /-- Per admitted ticket: the key, the public model and the target instance. -/
  active : Dict Nat (String × String × String) := ∅
  keyActive : Dict String Nat := ∅

/-- `Admission::default`. -/
def State.default : State := { limit := 64 }

namespace State

def keyLimit (s : State) (key : String) : Nat :=
  min (((s.limits.lookup key).filter fun n => 0 < n).getD s.limit) s.limit

def available (s : State) (key : String) : Bool :=
  (s.keyActive.lookup key).getD 0 < s.keyLimit key

def selected (s : State) : Option Nat :=
  if s.limit ≤ s.active.size then none
  else if s.fair then do
    let key ← s.turns.find? s.available
    (s.waiting.find? fun w => w.2 == key).map (·.1)
  else
    (s.waiting.find? fun w => s.available w.2).map (·.1)

/-- `none` when the ticket is not waiting; the state is then unchanged. -/
def removeWaiter (s : State) (id : Nat) (rotate : Bool) : Option (String × State) := do
  let (_, key) ← s.waiting.find? fun w => w.1 == id
  let waiting := s.waiting.eraseP fun w => w.1 == id
  let remaining := waiting.any fun w => w.2 == key
  let turns :=
    if rotate || !remaining then
      (s.turns.filter fun k => k != key) ++ if remaining then [key] else []
    else s.turns
  return (key, { s with waiting, turns })

/-- Count one more active request of the key and record its ticket. -/
def activate (s : State) (id : Nat) (key : String) : State :=
  { s with
    keyActive := s.keyActive.insert key ((s.keyActive.lookup key).getD 0 + 1)
    active := s.active.insert id (key, "", "") }

@[simp] theorem activate_turns (s : State) (id : Nat) (key : String) :
    (s.activate id key).turns = s.turns := rfl

/-- Take the next ticket: `wrapping_add(1)` on a `u64`. -/
def advance (s : State) : State := { s with next := (s.next + 1) % 2 ^ 64 }

def enqueue (s : State) (id : Nat) (key : String) : State :=
  { s with
    turns := if s.turns.contains key then s.turns else s.turns ++ [key]
    waiting := s.waiting ++ [(id, key)] }

/-- How the first critical section of `acquire` ends. -/
inductive Acquired where
  | permit (id : Nat)
  | refused
  | waiter (id : Nat)
deriving DecidableEq, Repr

/-- The first critical section of `acquire`. -/
def acquire (s : State) (key : String) : State × Acquired :=
  if s.active.size < s.limit ∧ s.available key ∧ s.selected = none then
    (s.advance.activate s.next key, .permit s.next)
  else if maxWaiters ≤ s.waiting.length ∨
      maxKeyWaiters ≤ (s.waiting.filter fun w => w.2 == key).length then
    (s, .refused)
  else (s.advance.enqueue s.next key, .waiter s.next)

/-- A waiter's critical section when it is the selected one; `none` when it is
not. The `unwrap` of the removed key is safe: a selected ticket is waiting
(`selected_mem`). -/
def admitWaiter (s : State) (id : Nat) : Option State :=
  if s.selected = some id then
    (s.removeWaiter id true).map fun (key, s) => s.activate id key
  else none

/-- `Waiter::drop`. -/
def dropWaiter (s : State) (id : Nat) : State :=
  ((s.removeWaiter id false).map (·.2)).getD s

/-- `AdmissionPermit::drop`. -/
def dropPermit (s : State) (id : Nat) : State :=
  match s.active.lookup id with
  | none => s
  | some (key, _, _) =>
    let s := { s with active := s.active.erase id }
    match s.keyActive.lookup key with
    | none => s
    | some count =>
      if count - 1 = 0 then { s with keyActive := s.keyActive.erase key }
      else { s with keyActive := s.keyActive.insert key (count - 1) }

/-- `AdmissionPermit::target`. -/
def target (s : State) (id : Nat) (model instance_ : String) : State :=
  match s.active.lookup id with
  | none => s
  | some (key, _, _) =>
    { s with active := s.active.insert id (key, .ofList (model.toList.take 512), instance_) }

def configure (s : State) (config : ProxyConfig) : State :=
  { s with
    limit := max config.maxConcurrentRequests 1
    fair := config.fairQueueEnabled
    limits := config.apiKeys.foldl (fun m k => m.insert k.id k.maxConcurrentRequests) ∅ }

end State

end LlamaServerManager.Admission
