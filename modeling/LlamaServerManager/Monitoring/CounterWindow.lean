import Mathlib.Algebra.Order.BigOperators.Group.List
import Mathlib.Algebra.Order.Field.Rat
import Mathlib.Data.List.Chain
import Mathlib.Tactic.Linarith

/-!
The window of counter samples behind a live rate (`CounterWindow` of
`commands/inference_metrics.rs`), with times in whole milliseconds and rates as fractions.

* `Stored` — the window is the end of the samples accepted since the last reset.
* `rate_sound` — a rate is that of two samples of one stretch.
* `isSome_rate_iff` — when two fresh samples give a rate.
-/

namespace LlamaServerManager.Monitoring

structure Sample where
  time : Int
  count : Nat
deriving DecidableEq, Repr

def windowMs : Int := 3000
def freshMs : Int := 5000
def maxSamples : Nat := 128

/-- The sample does not continue the one before it. -/
def resets (prev s : Sample) : Bool :=
  decide (s.time ≤ prev.time) || decide (s.count < prev.count) ||
    decide (freshMs < s.time - prev.time)

/-- The first samples go while the second one is older than the limit. -/
def pruneOld (limit : Int) : List Sample → List Sample
  | a :: b :: c :: rest =>
    if b.time < limit then pruneOld limit (b :: c :: rest) else a :: b :: c :: rest
  | samples => samples

def pruneMany (samples : List Sample) : List Sample :=
  samples.drop (samples.length - maxSamples)

/-- `CounterWindow::push`. -/
def push (window : List Sample) (s : Sample) : Bool × List Sample :=
  if s.time < 0 then (false, window)
  else if window.getLast? = some s then (false, window)
  else
    let window := if window.getLast?.any (resets · s) then [] else window
    (true, pruneMany (pruneOld (s.time - windowMs) (window ++ [s])))

/-- `CounterWindow::rate`: the rate in counts a second, and the time it spans. -/
def rate (window : List Sample) : Option (ℚ × Nat) :=
  match window.head?, window.getLast? with
  | some first, some last =>
    let ms := last.time - first.time
    if 100 ≤ ms ∧ ms ≤ freshMs then
      some (((last.count - first.count : Nat) : ℚ) * 1000 / (ms : ℚ), ms.toNat)
    else none
  | _, _ => none

/-- All pushes, from an empty window. -/
def run (pushes : List Sample) : List Sample :=
  pushes.foldl (fun window s => (push window s).2) []

/-! ### The pushes behind a window -/

/-- A push that is ignored: before the start of time, or a repetition. -/
def ignored (prev : Option Sample) (s : Sample) : Bool :=
  decide (s.time < 0) || decide (prev = some s)

/-- The samples accepted. -/
def accepted (pushes : List Sample) : List Sample :=
  pushes.foldl (fun all s => if ignored all.getLast? s then all else all ++ [s]) []

/-- The samples accepted since the last reset. -/
def stretch (pushes : List Sample) : List Sample :=
  pushes.foldl (fun all s =>
    if ignored all.getLast? s then all
    else (if all.getLast?.any (resets · s) then [] else all) ++ [s]) []

/-- One sample continues the other: no reset, no reversal, no long gap. -/
structure Steady (a b : Sample) : Prop where
  time_lt : a.time < b.time
  count_le : a.count ≤ b.count
  near : b.time - a.time ≤ freshMs

/-- Earlier. -/
def Before (a b : Sample) : Prop := a.time < b.time

instance : Trans Before Before Before := ⟨Int.lt_trans⟩

variable {samples : List Sample}

theorem pairwise_of_steady (steady : samples.IsChain Steady) : samples.Pairwise Before :=
  List.isChain_iff_pairwise.mp (steady.imp fun _ _ step => step.time_lt)

theorem steady_of_resets {prev s : Sample} (kept : resets prev s = false) : Steady prev s := by
  simp only [resets, Bool.or_eq_false_iff, decide_eq_false_iff_not, not_le, not_lt] at kept
  exact ⟨kept.1.1, kept.1.2, kept.2⟩

theorem resets_of_steady {prev s : Sample} (h : Steady prev s) : resets prev s = false := by
  simp only [resets, Bool.or_eq_false_iff, decide_eq_false_iff_not, not_le, not_lt]
  exact ⟨⟨h.time_lt, h.count_le⟩, h.near⟩

/-! ### One push -/

/-- What the first loop drops, and when it stops. -/
theorem pruneOld_spec (limit : Int) (samples : List Sample) :
    (∃ dropped, samples = dropped ++ pruneOld limit samples ∧
      (dropped = [] ∨ ∀ first ∈ (pruneOld limit samples).head?, first.time < limit)) ∧
    (∀ a b c rest, pruneOld limit samples = a :: b :: c :: rest → limit ≤ b.time) ∧
    min 2 samples.length ≤ (pruneOld limit samples).length := by
  fun_induction pruneOld limit samples with
  | case1 a b c rest old ih =>
    obtain ⟨⟨dropped, whole, first⟩, stops, two⟩ := ih
    refine ⟨⟨a :: dropped, by rw [List.cons_append, ← whole], .inr ?_⟩, stops, by simpa using two⟩
    rcases first with rfl | first
    · rw [List.nil_append] at whole
      rw [← whole]
      simpa using old
    · exact first
  | case2 a b c rest young =>
    refine ⟨⟨[], rfl, .inl rfl⟩, ?_, by simp⟩
    rintro _ _ _ _ same
    obtain ⟨rfl, rfl, rfl, rfl⟩ := by simpa using same
    exact Int.not_lt.mp young
  | case3 samples few =>
    refine ⟨⟨[], rfl, .inl rfl⟩, ?_, Nat.min_le_right _ _⟩
    intro a b c rest same
    exact absurd same (few a b c rest)

theorem pruneMany_suffix (samples : List Sample) : pruneMany samples <:+ samples :=
  List.drop_suffix _ _

theorem pruneMany_length (samples : List Sample) :
    (pruneMany samples).length = min maxSamples samples.length := by
  rw [pruneMany, List.length_drop]
  omega

theorem pruneMany_of_le (few : samples.length ≤ maxSamples) : pruneMany samples = samples := by
  rw [pruneMany, Nat.sub_eq_zero_of_le few, List.drop_zero]

/-- **The window**: the end of a stretch of samples in order. Samples are missing where
the first one left is older than the window, or where there are too many. -/
structure Stored (samples window : List Sample) : Prop where
  steady : samples.IsChain Steady
  positive : ∀ s ∈ samples, 0 ≤ s.time
  split : ∃ dropped, samples = dropped ++ window ∧
    (dropped = [] ∨ window.length = maxSamples ∨
      ∀ first ∈ window.head?, ∀ last ∈ window.getLast?, first.time < last.time - windowMs)
  short : window.length ≤ maxSamples
  pruned : ∀ a b c rest, window = a :: b :: c :: rest →
    ∀ last ∈ window.getLast?, last.time - windowMs ≤ b.time
  two : min 2 samples.length ≤ window.length

namespace Stored

variable {samples window : List Sample} {s : Sample}

theorem empty : Stored [] [] where
  steady := .nil
  positive := by simp
  split := ⟨[], rfl, .inl rfl⟩
  short := Nat.zero_le _
  pruned := by simp
  two := Nat.zero_le _

theorem suffix (h : Stored samples window) : window <:+ samples := by
  obtain ⟨dropped, whole, -⟩ := h.split
  exact ⟨dropped, whole.symm⟩

theorem getLast?_eq (h : Stored samples window) : window.getLast? = samples.getLast? := by
  obtain ⟨dropped, rfl, -⟩ := h.split
  have two := h.two
  cases window with
  | nil =>
    rw [List.append_nil] at two
    have none_ : dropped = [] := by
      cases dropped with
      | nil => rfl
      | cons a rest => simp at two
    simp [none_]
  | cons a rest => simp [List.getLast?_append, List.getLast?_cons]

/-- One more sample that continues the stretch. -/
theorem extend (h : Stored samples window) (positive : 0 ≤ s.time)
    (continues : ∀ last ∈ samples.getLast?, Steady last s) :
    Stored (samples ++ [s]) (pruneMany (pruneOld (s.time - windowMs) (window ++ [s]))) := by
  have steady : (samples ++ [s]).IsChain Steady :=
    List.isChain_append.mpr ⟨h.steady, .singleton s, by simpa using continues⟩
  have all_positive : ∀ other ∈ samples ++ [s], 0 ≤ other.time :=
    List.forall_mem_append.mpr ⟨h.positive, by simpa using positive⟩
  obtain ⟨⟨dropped, whole, first⟩, stops, two⟩ := pruneOld_spec (s.time - windowMs) (window ++ [s])
  obtain ⟨before, all, reason⟩ := h.split
  have enough := h.two
  have lastOld := h.getLast?_eq
  generalize pruneOld (s.time - windowMs) (window ++ [s]) = kept at *
  have joined : samples ++ [s] = before ++ dropped ++ kept := by
    rw [all, List.append_assoc, whole, List.append_assoc]
  have nonempty : kept ≠ [] := by
    rintro rfl
    simp at two
  have last : kept.getLast? = some s := by
    have ends : (window ++ [s]).getLast? = some s := by simp
    rwa [whole, List.getLast?_append_of_ne_nil _ nonempty] at ends
  by_cases few : kept.length ≤ maxSamples
  · -- nothing more is dropped
    rw [pruneMany_of_le few]
    refine ⟨steady, all_positive, ⟨before ++ dropped, joined, ?_⟩, few, ?_, ?_⟩
    · rcases first with rfl | old
      · rw [List.nil_append] at whole
        subst whole
        rw [List.append_nil]
        cases window with
        | nil =>
          left
          have none_ : samples = [] := by
            cases samples with
            | nil => rfl
            | cons a rest => simp at enough
          rw [none_, List.append_nil] at all
          exact all.symm
        | cons f rest =>
          rcases reason with none_ | full | old
          · exact .inl none_
          · rw [List.length_append, full] at few
            exact absurd few (by simp)
          · right
            right
            intro g atHead l atLast
            obtain rfl : f = g := by simpa using atHead
            obtain rfl : s = l := Option.some.inj (last.symm.trans atLast)
            obtain ⟨old_, isLast⟩ := Option.ne_none_iff_exists'.mp
              (show (f :: rest).getLast? ≠ none by simp)
            have step := continues old_ (lastOld ▸ isLast)
            have before_ := old f rfl old_ isLast
            have later := step.time_lt
            omega
      · right
        right
        intro f atHead l atLast
        obtain rfl : s = l := by simpa [last] using atLast
        exact old f atHead
    · intro a b c rest same l atLast
      obtain rfl : s = l := by simpa [last] using atLast
      exact stops a b c rest same
    · rw [List.length_append] at two ⊢
      simp only [List.length_singleton] at two ⊢
      omega
  · -- the first ones go, and 128 stay
    have length : (pruneMany kept).length = maxSamples := by
      rw [pruneMany_length]
      omega
    obtain ⟨gone, cut⟩ := pruneMany_suffix kept
    have gone_length : 1 ≤ gone.length := by
      have total := congrArg List.length cut
      rw [List.length_append, length] at total
      omega
    have lastKept : (pruneMany kept).getLast? = some s := by
      have nonempty_ : pruneMany kept ≠ [] := by
        intro none_
        rw [none_] at length
        exact absurd length (by decide)
      have ends := congrArg List.getLast? cut
      rw [List.getLast?_append_of_ne_nil _ nonempty_] at ends
      exact ends.trans last
    refine ⟨steady, all_positive, ⟨before ++ dropped ++ gone, ?_, .inr (.inl length)⟩,
      Nat.le_of_eq length, ?_, ?_⟩
    · rw [joined, List.append_assoc (before ++ dropped), cut]
    · intro a b c rest same l atLast
      obtain rfl : s = l := by simpa [lastKept] using atLast
      have ordered : kept.Pairwise Before :=
        pairwise_of_steady (steady.suffix ⟨before ++ dropped, joined.symm⟩)
      rw [same] at cut
      rw [← cut] at ordered stops
      match gone, gone_length with
      | [x], _ =>
        have second := stops x a b (c :: rest) rfl
        have later : a.time < b.time :=
          (List.pairwise_cons.mp (List.pairwise_cons.mp ordered).2).1 b (by simp)
        omega
      | x :: y :: gone, _ =>
        obtain ⟨z, more, third⟩ : ∃ z more, gone ++ a :: b :: c :: rest = z :: more := by
          cases gone with
          | nil => exact ⟨_, _, rfl⟩
          | cons z gone => exact ⟨_, _, rfl⟩
        have second := stops x y z more (by rw [List.cons_append, List.cons_append, third])
        have later : y.time < b.time :=
          (List.pairwise_cons.mp (List.pairwise_cons.mp ordered).2).1 b (by simp)
        omega
    · rw [length]
      exact Nat.le_trans (Nat.min_le_left _ _) (by decide)

end Stored

/-! ### All pushes -/

theorem run_concat (pushes : List Sample) (s : Sample) :
    run (pushes ++ [s]) = (push (run pushes) s).2 := by
  simp [run]

theorem accepted_concat (pushes : List Sample) (s : Sample) :
    accepted (pushes ++ [s]) =
      if ignored (accepted pushes).getLast? s then accepted pushes
      else accepted pushes ++ [s] := by
  rw [accepted, List.foldl_append]
  rfl

theorem stretch_concat (pushes : List Sample) (s : Sample) :
    stretch (pushes ++ [s]) =
      if ignored (stretch pushes).getLast? s then stretch pushes
      else (if (stretch pushes).getLast?.any (resets · s) then [] else stretch pushes) ++ [s] := by
  rw [stretch, List.foldl_append]
  rfl

theorem push_of_ignored {window : List Sample} {s : Sample}
    (h : ignored window.getLast? s = true) : (push window s).2 = window := by
  simp only [ignored, Bool.or_eq_true, decide_eq_true_eq] at h
  unfold push
  split
  · rfl
  · rename_i positive
    rw [if_pos (h.resolve_left positive)]

theorem push_of_not_ignored {window : List Sample} {s : Sample}
    (h : ignored window.getLast? s = false) :
    (push window s).2 = pruneMany (pruneOld (s.time - windowMs)
      ((if window.getLast?.any (resets · s) then [] else window) ++ [s])) := by
  simp only [ignored, Bool.or_eq_false_iff, decide_eq_false_iff_not] at h
  simp [push, h]

/-- **The window of a run** is the end of its last stretch. -/
theorem stored_run (pushes : List Sample) : Stored (stretch pushes) (run pushes) := by
  induction pushes using List.reverseRecOn with
  | nil => exact Stored.empty
  | append_singleton pushes s ih =>
    have last := ih.getLast?_eq
    rw [run_concat, stretch_concat]
    cases skip : ignored (stretch pushes).getLast? s with
    | true =>
      rw [if_pos rfl, push_of_ignored (by rw [last, skip])]
      exact ih
    | false =>
      rw [if_neg (by simp), push_of_not_ignored (by rw [last, skip]), last]
      have positive : 0 ≤ s.time := by
        simp only [ignored, Bool.or_eq_false_iff, decide_eq_false_iff_not, not_lt] at skip
        exact skip.1
      cases reset : (stretch pushes).getLast?.any (resets · s) with
      | true => exact Stored.empty.extend positive (by simp)
      | false =>
        refine ih.extend positive fun prev at_ => steady_of_resets ?_
        rw [Option.mem_def] at at_
        simpa [at_] using reset

/-- A stretch is the end of the samples accepted. -/
theorem stretch_suffix (pushes : List Sample) :
    stretch pushes <:+ accepted pushes ∧
      (stretch pushes).getLast? = (accepted pushes).getLast? := by
  induction pushes using List.reverseRecOn with
  | nil => exact ⟨List.suffix_refl _, rfl⟩
  | append_singleton pushes s ih =>
    obtain ⟨suffix, last⟩ := ih
    rw [stretch_concat, accepted_concat, last]
    split
    · exact ⟨suffix, last⟩
    · split
      · exact ⟨⟨accepted pushes, by simp⟩, by simp⟩
      · obtain ⟨before, all⟩ := suffix
        exact ⟨⟨before, by rw [← all, List.append_assoc]⟩, by simp⟩

/-! ### What a rate says -/

/-- The neighbours among the samples. -/
def pairs (samples : List Sample) : List (Sample × Sample) :=
  samples.zip samples.tail

/-- The rate of one step, in counts a second. -/
def stepRate (p : Sample × Sample) : ℚ :=
  ((p.2.count : ℚ) - p.1.count) * 1000 / ((p.2.time - p.1.time : Int) : ℚ)

/-- A rate is that of two stored samples: accepted one after the other with all between
them, in order, without a reset or a long gap. -/
structure SoundRate (pushes : List Sample) (r : ℚ) (ms : Nat) (first last : Sample) : Prop where
  stored : (run pushes).head? = some first ∧ (run pushes).getLast? = some last
  consecutive : run pushes <:+ accepted pushes
  steady : (run pushes).IsChain Steady
  count_le : first.count ≤ last.count
  value : r = ((last.count : ℚ) - first.count) * 1000 / ((last.time - first.time : Int) : ℚ)
  least : ∃ p ∈ pairs (run pushes), stepRate p ≤ r
  greatest : ∃ p ∈ pairs (run pushes), r ≤ stepRate p
  span : (ms : Int) = last.time - first.time
  bounded : 100 ≤ ms ∧ ms ≤ 5000

theorem steady_of_pairs (steady : samples.IsChain Steady) {p : Sample × Sample}
    (at_ : p ∈ pairs samples) : Steady p.1 p.2 := by
  induction samples with
  | nil => simp [pairs] at at_
  | cons a samples ih =>
    cases samples with
    | nil => simp [pairs] at at_
    | cons b rest =>
      obtain ⟨first, later⟩ := List.isChain_cons_cons.mp steady
      have cases_ : p = (a, b) ∨ p ∈ pairs (b :: rest) := by simpa [pairs] using at_
      rcases cases_ with rfl | at_
      · exact first
      · exact ih later at_

variable {first last : Sample}

/-- Along the samples the steps add up. -/
theorem sum_steps (f : Sample → ℚ) (head : samples.head? = some first)
    (ends : samples.getLast? = some last) :
    ((pairs samples).map fun p => f p.2 - f p.1).sum = f last - f first := by
  induction samples generalizing first with
  | nil => simp at head
  | cons a samples ih =>
    obtain rfl : a = first := by simpa using head
    cases samples with
    | nil =>
      obtain rfl : a = last := by simpa using ends
      simp [pairs]
    | cons b rest =>
      have rest_sum := ih rfl (by simpa using ends)
      have steps : pairs (a :: b :: rest) = (a, b) :: pairs (b :: rest) := rfl
      rw [steps, List.map_cons, List.sum_cons, rest_sum]
      exact sub_add_sub_cancel' _ _ _

/-- The counts of a chain do not fall. -/
theorem count_le_of_steady (steady : samples.IsChain Steady) (head : samples.head? = some first)
    (ends : samples.getLast? = some last) : first.count ≤ last.count := by
  have steps : 0 ≤ ((pairs samples).map fun p => (p.2.count : ℚ) - p.1.count).sum := by
    refine List.sum_nonneg fun step taken => ?_
    obtain ⟨p, at_, rfl⟩ := List.mem_map.mp taken
    have le := (steady_of_pairs steady at_).count_le
    exact sub_nonneg.mpr (by exact_mod_cast le)
  rw [sum_steps (fun s => (s.count : ℚ)) head ends] at steps
  exact_mod_cast sub_nonneg.mp steps

/-- **The mean of the steps** lies between the smallest and the largest of them. -/
theorem exists_stepRate_le (steady : samples.IsChain Steady) (head : samples.head? = some first)
    (ends : samples.getLast? = some last) (apart : first.time < last.time) {r : ℚ}
    (value : r = ((last.count : ℚ) - first.count) * 1000 / ((last.time - first.time : Int) : ℚ)) :
    (∃ p ∈ pairs samples, stepRate p ≤ r) ∧ ∃ p ∈ pairs samples, r ≤ stepRate p := by
  have positive : (0 : ℚ) < ((last.time - first.time : Int) : ℚ) := by
    exact_mod_cast Int.sub_pos_of_lt apart
  have counts := sum_steps (fun s => (s.count : ℚ) * 1000) head ends
  have times := sum_steps (fun s => r * s.time) head ends
  have total : ((pairs samples).map fun p => (p.2.count : ℚ) * 1000 - p.1.count * 1000).sum =
      ((pairs samples).map fun p => r * p.2.time - r * p.1.time).sum := by
    have product := (eq_div_iff positive.ne').mp value
    push_cast at product
    rw [counts, times]
    linarith
  have nonempty : (pairs samples) ≠ [] := by
    intro none_
    have zero := sum_steps (fun s => (s.time : ℚ)) head ends
    rw [none_] at zero
    simp only [List.map_nil, List.sum_nil] at zero
    push_cast at positive
    linarith
  have step {p : Sample × Sample} (at_ : p ∈ pairs samples) :
      (0 : ℚ) < ((p.2.time - p.1.time : Int) : ℚ) := by
    exact_mod_cast Int.sub_pos_of_lt (steady_of_pairs steady at_).time_lt
  constructor
  · obtain ⟨p, at_, le⟩ := List.exists_le_of_sum_le nonempty _ _ total.le
    refine ⟨p, at_, (div_le_iff₀ (step at_)).mpr ?_⟩
    push_cast
    linarith
  · obtain ⟨p, at_, le⟩ := List.exists_le_of_sum_le nonempty _ _ total.ge
    refine ⟨p, at_, (le_div_iff₀ (step at_)).mpr ?_⟩
    push_cast
    linarith

theorem rate_eq_some {window : List Sample} {r : ℚ} {ms : Nat}
    (given : rate window = some (r, ms)) :
    ∃ first last, window.head? = some first ∧ window.getLast? = some last ∧
      100 ≤ last.time - first.time ∧ last.time - first.time ≤ freshMs ∧
      r = ((last.count - first.count : Nat) : ℚ) * 1000 / ((last.time - first.time : Int) : ℚ) ∧
      ms = (last.time - first.time).toNat := by
  unfold rate at given
  split at given
  · rename_i first last head ends
    simp only [Option.ite_none_right_eq_some, Option.some.injEq, Prod.mk.injEq] at given
    obtain ⟨⟨enough, fresh⟩, value, span⟩ := given
    exact ⟨first, last, head, ends, enough, fresh, value.symm, span.symm⟩
  · cases given

/-- **A rate is sound.** -/
theorem rate_sound {pushes : List Sample} {r : ℚ} {ms : Nat}
    (given : rate (run pushes) = some (r, ms)) : ∃ first last, SoundRate pushes r ms first last := by
  obtain ⟨first, last, head, ends, enough, fresh, value, span⟩ := rate_eq_some given
  have stored := stored_run pushes
  have steady : (run pushes).IsChain Steady := stored.steady.suffix stored.suffix
  have count_le := count_le_of_steady steady head ends
  have apart : first.time < last.time := by omega
  rw [Nat.cast_sub count_le] at value
  obtain ⟨least, greatest⟩ := exists_stepRate_le steady head ends apart value
  refine ⟨first, last, ⟨head, ends⟩, stored.suffix.trans (stretch_suffix pushes).1, steady,
    count_le, value, least, greatest, ?_, ?_⟩
  · rw [span]
    exact Int.toNat_of_nonneg (by omega)
  · simp only [freshMs] at fresh
    omega

/-! ### When there is a rate -/

/-- Two samples from which a rate is due. -/
structure Successive (a b : Sample) : Prop where
  apart : 100 ≤ b.time - a.time
  near : b.time - a.time ≤ freshMs
  count_le : a.count ≤ b.count

theorem Successive.steady {a b : Sample} (h : Successive a b) : Steady a b where
  time_lt := by
    have apart := h.apart
    omega
  count_le := h.count_le
  near := h.near

/-- Two neighbours among the last 128 samples: one more than 5 s before the last sample,
the other at most 3 s before it. -/
def Bridged (samples : List Sample) (last : Sample) : Prop :=
  ∃ before x y after, samples = before ++ x :: y :: after ∧
    (x :: y :: after).length ≤ maxSamples ∧
    x.time < last.time - freshMs ∧ last.time - windowMs ≤ y.time

/-- Two samples accepted one after the other, without a reset between them, end their
stretch. -/
theorem stretch_of_accepted {pushes init : List Sample} {a b : Sample} (steady : Steady a b)
    (ends : accepted pushes = init ++ [a, b]) : ∃ init', stretch pushes = init' ++ [a, b] := by
  induction pushes using List.reverseRecOn with
  | nil => simp [accepted] at ends
  | append_singleton pushes s ih =>
    have last := (stretch_suffix pushes).2
    rw [accepted_concat] at ends
    rw [stretch_concat, last]
    cases skip : ignored (accepted pushes).getLast? s with
    | true =>
      rw [skip, if_pos rfl] at ends
      exact ih ends
    | false =>
      rw [skip, if_neg (by simp)] at ends
      have split : accepted pushes ++ [s] = (init ++ [a]) ++ [b] := by
        rw [ends, List.append_assoc]
        rfl
      obtain ⟨before, rfl⟩ := List.append_inj' split rfl |>.imp_right List.singleton_inj.mp
      have atLast : (accepted pushes).getLast? = some a := by simp [before]
      rw [atLast] at last
      obtain ⟨init', whole⟩ := List.getLast?_eq_some_iff.mp last
      refine ⟨init', ?_⟩
      simp [atLast, resets_of_steady steady, whole]

/-- The first of samples in order is the oldest. -/
theorem head_le (ordered : samples.Pairwise Before) {first s : Sample}
    (head : samples.head? = some first) (at_ : s ∈ samples) : first.time ≤ s.time := by
  cases samples with
  | nil => cases head
  | cons a rest =>
    obtain rfl : a = first := by simpa using head
    rcases List.mem_cons.mp at_ with rfl | later
    · exact Int.le_refl _
    · exact Int.le_of_lt ((List.pairwise_cons.mp ordered).1 s later)

/-- The first sample stored is too old exactly where two neighbours are bridged. -/
theorem Stored.old_iff {samples window : List Sample} (h : Stored samples window)
    (head : window.head? = some first) (ends : window.getLast? = some last)
    (two : 2 ≤ window.length) :
    first.time < last.time - freshMs ↔ Bridged samples last := by
  obtain ⟨dropped, whole, reason⟩ := h.split
  have ordered := pairwise_of_steady h.steady
  constructor
  · intro old
    obtain ⟨second, rest, rfl⟩ : ∃ second rest, window = first :: second :: rest := by
      match window, two with
      | a :: b :: rest, _ => exact ⟨b, rest, by simpa using head⟩
    refine ⟨dropped, first, second, rest, whole, h.short, old, ?_⟩
    cases rest with
    | nil =>
      obtain rfl : second = last := by simpa using ends
      simp [windowMs]
    | cons third rest => exact h.pruned first second third rest rfl last ends
  · rintro ⟨before, x, y, after, split, few, old, young⟩
    by_cases inside : (x :: y :: after).length ≤ window.length
    · -- the older neighbour is stored
      have suffix : x :: y :: after <:+ window :=
        List.suffix_of_suffix_length_le ⟨before, split.symm⟩ h.suffix inside
      have first_le := head_le (ordered.sublist h.suffix.sublist) head
        (suffix.subset List.mem_cons_self)
      omega
    · -- it is dropped, so the first sample stored is older than the window
      exfalso
      have suffix : window <:+ y :: after := by
        refine List.suffix_of_suffix_length_le h.suffix ⟨before ++ [x], by simp [split]⟩ ?_
        simp only [List.length_cons] at inside ⊢
        omega
      have above : (y :: after).Pairwise Before := by
        rw [split] at ordered
        exact (List.pairwise_cons.mp (List.pairwise_append.mp ordered).2.1).2
      have y_le := head_le above rfl (suffix.subset (List.mem_of_mem_head? head))
      rcases reason with rfl | full | outside
      · rw [List.nil_append] at whole
        have lengths := congrArg List.length (whole.symm.trans split)
        rw [List.length_append] at lengths
        omega
      · omega
      · have beyond := outside first head last ends
        omega

/-- **When two fresh samples give a rate**: no two neighbours are bridged. -/
theorem isSome_rate_iff {pushes init : List Sample} {a b : Sample} (next : Successive a b)
    (ends : accepted pushes = init ++ [a, b]) :
    (rate (run pushes)).isSome ↔ ¬Bridged (stretch pushes) b := by
  have stored := stored_run pushes
  obtain ⟨init', whole⟩ := stretch_of_accepted next.steady ends
  have two : 2 ≤ (run pushes).length := by
    have least := stored.two
    rw [whole, List.length_append] at least
    simp at least
    omega
  have last : (run pushes).getLast? = some b := by
    rw [stored.getLast?_eq, whole]
    simp
  obtain ⟨first, head⟩ : ∃ first, (run pushes).head? = some first := by
    match run pushes, two with
    | first :: rest, _ => exact ⟨first, rfl⟩
  have at_ : a ∈ run pushes := by
    have suffix : [a, b] <:+ run pushes :=
      List.suffix_of_suffix_length_le ⟨init', whole.symm⟩ stored.suffix two
    exact suffix.subset List.mem_cons_self
  have first_le := head_le
    ((pairwise_of_steady stored.steady).sublist stored.suffix.sublist) head at_
  have apart := next.apart
  rw [← stored.old_iff head last two]
  unfold rate
  simp only [head, last]
  constructor
  · intro given
    split at given
    · omega
    · cases given
  · intro young
    rw [if_pos ⟨by omega, by omega⟩]
    rfl

/-- The last two pushes, in order and not before the start of time, are accepted. -/
theorem accepted_of_last {init : List Sample} {a b : Sample} (positive : 0 ≤ a.time)
    (next : Successive a b) : ∃ init', accepted (init ++ [a, b]) = init' ++ [a, b] := by
  obtain ⟨init', ends⟩ : ∃ init', accepted (init ++ [a]) = init' ++ [a] := by
    rw [accepted_concat]
    split
    · rename_i skip
      simp only [ignored, Bool.or_eq_true, decide_eq_true_eq] at skip
      exact List.getLast?_eq_some_iff.mp (skip.resolve_left (by omega))
    · exact ⟨accepted init, rfl⟩
  have apart := next.apart
  have new : ignored (some a) b = false := by
    have different : a ≠ b := by
      rintro rfl
      omega
    simp only [ignored, Bool.or_eq_false_iff, decide_eq_false_iff_not, Option.some.injEq]
    exact ⟨by omega, different⟩
  refine ⟨init', ?_⟩
  have split : init ++ [a, b] = (init ++ [a]) ++ [b] := by simp
  rw [split, accepted_concat, ends]
  simp [new]

/-- **Counter-window rates.** Every rate is sound; and two fresh samples, the last ones
accepted, give a rate exactly when no two neighbours of their stretch are bridged.
Across a bridge the window would be longer than a rate may span, and none is given. -/
theorem counterWindow_rates (pushes : List Sample) :
    (∀ r ms, rate (run pushes) = some (r, ms) →
      ∃ first last, SoundRate pushes r ms first last) ∧
    ((∀ init a b, accepted pushes = init ++ [a, b] → Successive a b →
        (rate (run pushes)).isSome) ↔
      ∀ init a b, accepted pushes = init ++ [a, b] → Successive a b →
        ¬Bridged (stretch pushes) b) ∧
    ∀ init a b, pushes = init ++ [a, b] → 0 ≤ a.time → Successive a b →
      ((rate (run pushes)).isSome ↔ ¬Bridged (stretch pushes) b) := by
  refine ⟨fun r ms => rate_sound, ⟨?_, ?_⟩, ?_⟩
  · intro available init a b ends next
    exact (isSome_rate_iff next ends).mp (available init a b ends next)
  · intro unbridged init a b ends next
    exact (isSome_rate_iff next ends).mpr (unbridged init a b ends next)
  · rintro init a b rfl positive next
    obtain ⟨init', ends⟩ := @accepted_of_last init a b positive next
    exact isSome_rate_iff next ends

/-- Samples 4 s and 2.5 s apart: the first one stays, and spans too much. -/
theorem counterWindow_gap :
    Successive ⟨4000, 4⟩ ⟨6500, 6⟩ ∧
      accepted [⟨0, 0⟩, ⟨4000, 4⟩, ⟨6500, 6⟩] = [⟨0, 0⟩] ++ [⟨4000, 4⟩, ⟨6500, 6⟩] ∧
      rate (run [⟨0, 0⟩, ⟨4000, 4⟩, ⟨6500, 6⟩]) = none :=
  ⟨⟨by decide, by decide, by decide⟩, by decide, by decide⟩

end LlamaServerManager.Monitoring
