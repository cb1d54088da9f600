import LlamaServerManager.Lib.Machine
import Mathlib.Data.List.Count
import Mathlib.Data.List.Nodup
import Mathlib.Data.List.Rotate

/-!
A round-robin list over any type. Members join at the back, leave, and are
served: the first eligible member is served and goes to the back, or leaves.
Which members are eligible may change at every move.

The fairness of such a list is `served_at_most_once`: while a member stays in
the list, is eligible and is not served, every other member is served at most
once. It follows from one order, `Ahead`: once the other member is served it is
behind, and no move brings it forward again.

A fixed list served by a counter is simpler: consecutive turns are a rotation of
it (`turns_eq_rotate`).
-/

namespace LlamaServerManager.Lib

universe u

variable {α : Type u}

/-- `a` is in the list and `b` is not before it. -/
def Ahead (l : List α) (a b : α) : Prop := ∃ left right, l = left ++ a :: right ∧ b ∉ left

theorem Ahead.append {l : List α} {a b : α} (h : Ahead l a b) (m : List α) :
    Ahead (l ++ m) a b := by
  obtain ⟨left, right, rfl, notMem⟩ := h
  exact ⟨left, right ++ m, by rw [List.append_assoc, List.cons_append], notMem⟩

theorem Ahead.filter {l : List α} {a b : α} (h : Ahead l a b) {p : α → Bool} (keeps : p a = true) :
    Ahead (l.filter p) a b := by
  obtain ⟨left, right, rfl, notMem⟩ := h
  rw [List.filter_append, List.filter_cons_of_pos keeps]
  exact ⟨left.filter p, right.filter p, rfl, fun mem => notMem (List.mem_filter.mp mem).1⟩

theorem ahead_of_notMem {l : List α} {a b : α} (mem : a ∈ l) (absent : b ∉ l) : Ahead l a b := by
  obtain ⟨left, right, rfl⟩ := List.append_of_mem mem
  exact ⟨left, right, rfl, fun h => absent (List.mem_append_left _ h)⟩

/-- An eligible member is found before everything behind it. -/
theorem Ahead.find?_ne {l : List α} {a b : α} (h : Ahead l a b) {p : α → Bool}
    (eligible : p a = true) (ne : a ≠ b) : l.find? p ≠ some b := by
  obtain ⟨left, right, rfl, notMem⟩ := h
  rw [List.find?_append, List.find?_cons_of_pos eligible]
  cases found : left.find? p with
  | none => simpa using ne
  | some c =>
    rintro ⟨⟩
    exact notMem (List.mem_of_find?_eq_some found)

/-! ### The rotor -/

/-- One move; `serve` carries the members eligible at that moment and whether
the served one stays in the list. -/
inductive Move (α : Type u) where
  | join (a : α)
  | leave (a : α)
  | serve (a : α) (eligible : α → Bool) (stays : Bool)

/-- The list of the members in the order of their turns, and the history of the served
ones, the oldest first. -/
structure Rotor (α : Type u) where
  turns : List α
  served : List α

variable [DecidableEq α]

def Rotor.next (r : Rotor α) : Move α → Option (Rotor α)
  | .join a => some { r with turns := if a ∈ r.turns then r.turns else r.turns ++ [a] }
  | .leave a => some { r with turns := r.turns.filter fun b => b != a }
  | .serve a eligible stays =>
    if r.turns.find? eligible = some a then
      some ⟨(r.turns.filter fun b => b != a) ++ if stays then [a] else [], r.served ++ [a]⟩
    else none

theorem Rotor.next_serve {r : Rotor α} {a : α} {eligible : α → Bool} (stays : Bool)
    (found : r.turns.find? eligible = some a) :
    r.next (.serve a eligible stays) =
      some ⟨(r.turns.filter fun b => b != a) ++ if stays then [a] else [], r.served ++ [a]⟩ :=
  if_pos found

def rotor (start : Rotor α) : Machine (Rotor α) (Move α) where
  init := start
  next := Rotor.next

/-- The move neither removes nor serves `a`, and `a` is eligible at it. -/
def Passes (a : α) : Rotor α → Move α → Rotor α → Prop
  | _, .join _, _ => True
  | _, .leave b, _ => b ≠ a
  | _, .serve b eligible _, _ => b ≠ a ∧ eligible a = true

/-- `b` was served at most once more than `count` times, and if it was, it is behind
`a`. With `a` waiting this is kept by every move that passes `a`, so `b` does not
overtake it twice. -/
def Behind (a b : α) (count : Nat) (r : Rotor α) : Prop :=
  a ∈ r.turns ∧
    (r.served.count b = count ∨ r.served.count b = count + 1 ∧ Ahead r.turns a b)

theorem behind_step {a b : α} {count : Nat} (ne : a ≠ b) {r t : Rotor α} {m : Move α}
    (h : r.next m = some t) (passes : Passes a r m t) (behind : Behind a b count r) :
    Behind a b count t := by
  obtain ⟨mem, counts⟩ := behind
  cases m with
  | join c =>
    cases h
    dsimp only [Behind]
    split
    · exact ⟨mem, counts⟩
    · exact ⟨List.mem_append_left _ mem, counts.imp_right fun h => ⟨h.1, h.2.append _⟩⟩
  | leave c =>
    cases h
    have keeps : (a != c) = true := bne_iff_ne.mpr passes.symm
    exact ⟨List.mem_filter.mpr ⟨mem, keeps⟩,
      counts.imp_right fun h => ⟨h.1, h.2.filter keeps⟩⟩
  | serve c eligible stays =>
    obtain ⟨other, avail⟩ := passes
    simp only [Rotor.next] at h
    split at h
    swap
    · cases h
    rename_i found
    cases h
    have keeps : (a != c) = true := bne_iff_ne.mpr other.symm
    have stay : a ∈ r.turns.filter fun d => d != c := List.mem_filter.mpr ⟨mem, keeps⟩
    dsimp only [Behind]
    refine ⟨List.mem_append_left _ stay, ?_⟩
    by_cases same : c = b
    · subst same
      rw [List.count_append, List.count_singleton_self]
      rcases counts with fresh | ⟨-, ahead⟩
      · -- Its first turn: it is filtered out and re-appended behind `a`.
        have absent : c ∉ r.turns.filter fun d => d != c := by simp
        exact .inr ⟨by rw [fresh], (ahead_of_notMem stay absent).append _⟩
      · exact absurd found (ahead.find?_ne avail ne)
    · rw [List.count_append, List.count_singleton, if_neg (by simpa using same), Nat.add_zero]
      exact counts.imp_right fun h => ⟨h.1, (h.2.filter keeps).append _⟩

/-- **Bounded overtaking.** While `a` is in the list, eligible and passed over,
every other member is served at most once. -/
theorem served_at_most_once {start r t : Rotor α} {moves : List (Move α)} {a b : α}
    (ne : a ≠ b) (mem : a ∈ r.turns) (along : (rotor start).Along (Passes a) r moves)
    (hr : (rotor start).run r moves = some t) : t.served.count b ≤ r.served.count b + 1 := by
  have behind : Behind a b (r.served.count b) t :=
    Machine.run_preserves_along (P := Behind a b (r.served.count b))
      (fun _ _ _ h passes behind => behind_step ne h passes behind) along hr ⟨mem, .inl rfl⟩
  rcases behind.2 with same | ⟨once, -⟩
  · omega
  · omega

/-! ### A counter over a fixed list -/

variable {β : Type u}

/-- The turns of consecutive values of the counter. -/
def turns (wheel : List β) (start n : Nat) : List (Option β) :=
  (List.range' start n).map fun ticket => wheel[ticket % wheel.length]?

theorem turns_succ (wheel : List β) (start n : Nat) :
    turns wheel start (n + 1) = wheel[start % wheel.length]? :: turns wheel (start + 1) n := rfl

theorem turns_eq_rotate (wheel : List β) (start : Nat) :
    turns wheel start wheel.length = (wheel.rotate start).map some := by
  refine List.ext_getElem? fun i => ?_
  unfold turns
  by_cases inside : i < wheel.length
  · rw [List.getElem?_map, List.getElem?_map, List.getElem?_rotate inside,
      List.getElem?_range' inside]
    have turn : (i + start) % wheel.length < wheel.length := Nat.mod_lt _ (by omega)
    simp [Nat.add_comm start i, List.getElem?_eq_getElem turn]
  · simp [Nat.not_lt.mp inside]

/-- **As many consecutive turns as there are places serve each place once.** -/
theorem turns_perm (wheel : List β) (start : Nat) :
    (turns wheel start wheel.length).Perm (wheel.map some) := by
  rw [turns_eq_rotate]
  exact (wheel.rotate_perm start).map some

end LlamaServerManager.Lib
