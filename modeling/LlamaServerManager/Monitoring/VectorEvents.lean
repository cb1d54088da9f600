import LlamaServerManager.Lib.Buckets
import Mathlib.Analysis.SpecialFunctions.Log.Base

/-!
The requests to a vector model that both the proxy and the server's log report
(`deduplicated_vector_rate_events` of `commands/monitoring.rs`): a log event goes where a
proxy event of about the same time and duration stands for it. The code looks for that one
in 45 buckets of times and durations; `matching` looks at all that are left.

* `vectorDurationBucket_eq` — the bucket is the integer part of a logarithm.
* `vectorKey_mem_visitedKeys` — a proxy event within the tolerance is in a bucket visited.
* `deduplicated_eq` — the buckets change nothing.
-/

namespace LlamaServerManager.Monitoring

open Lib Lib.Buckets

inductive VectorMetricSource where
  | log
  | proxy
deriving DecidableEq, Repr

structure VectorLiveEvent where
  source : VectorMetricSource
  completedAt : Int
  itemCount : Nat
  inputTokens : Option Nat
  durationMs : ℚ
  succeeded : Bool
deriving DecidableEq

def vectorMatchTimeBucketMs : Int := 500

/-- The largest power of `5/4` up to a number. -/
def logFloor (x : ℚ) : Nat := Nat.findGreatest (fun n => (5 / 4 : ℚ) ^ n ≤ x) ⌊4 * x⌋₊

/-- `vector_duration_bucket`: the durations grow by a quarter from bucket to bucket. -/
def vectorDurationBucket (durationMs : ℚ) : Int := logFloor (max durationMs 0 + 200)

abbrev VectorKey := Nat × Int × Int

def vectorKey (event : VectorLiveEvent) : VectorKey :=
  (event.itemCount, event.completedAt / vectorMatchTimeBucketMs,
    vectorDurationBucket event.durationMs)

/-- Completed within two seconds of each other, with durations that differ by at most a
quarter of the proxy's and 50 ms. -/
def tolerates (proxyEvent logEvent : VectorLiveEvent) : Bool :=
  decide ((proxyEvent.completedAt - logEvent.completedAt).natAbs ≤ 2000) &&
    decide (|proxyEvent.durationMs - logEvent.durationMs| ≤
      max |proxyEvent.durationMs| 1 * (1 / 4) + 50)

/-- The buckets that a log event is looked for in. -/
def visitedKeys (logEvent : VectorLiveEvent) : List VectorKey :=
  (List.range 9).flatMap fun (time : Nat) =>
    (List.range 5).map fun (duration : Nat) =>
      (logEvent.itemCount, logEvent.completedAt / vectorMatchTimeBucketMs - 4 + (time : Int),
        vectorDurationBucket logEvent.durationMs - 2 + (duration : Int))

section Events

variable (proxyEvents : List VectorLiveEvent)

/-- The proxy event at an index stands for the log event, by time and duration. -/
def candidate (logEvent : VectorLiveEvent) (index : Nat) : Bool :=
  proxyEvents[index]?.any fun proxyEvent => tolerates proxyEvent logEvent

/-- The indices of the proxy events, in their buckets. -/
def bucketed : Dict VectorKey (List Nat) :=
  proxyEvents.zipIdx.foldl
    (fun candidates entry => Buckets.push candidates (vectorKey entry.1) entry.2) ∅

/-- The loop over the log events. -/
def deduplicate (candidates : Dict VectorKey (List Nat)) (rateEvents : List VectorLiveEvent) :
    List VectorLiveEvent → List VectorLiveEvent
  | [] => rateEvents
  | logEvent :: logEvents =>
    match search (candidate proxyEvents logEvent) candidates (visitedKeys logEvent) with
    | some (key, position, _) =>
      deduplicate (remove candidates key position) rateEvents logEvents
    | none => deduplicate candidates (rateEvents ++ [logEvent]) logEvents

def deduplicatedVectorRateEvents (logEvents : List VectorLiveEvent) : List VectorLiveEvent :=
  deduplicate proxyEvents (bucketed proxyEvents) proxyEvents logEvents

/-! ### Without buckets -/

/-- The proxy event at an index stands for the log event. -/
def standsFor (logEvent : VectorLiveEvent) (index : Nat) : Bool :=
  proxyEvents[index]?.any fun proxyEvent =>
    decide (proxyEvent.itemCount = logEvent.itemCount) && tolerates proxyEvent logEvent

/-- For each log event the first proxy event left that stands for it. -/
def matching : List Nat → List VectorLiveEvent → List (Option Nat)
  | _, [] => []
  | unmatched, logEvent :: logEvents =>
    match unmatched.find? (standsFor proxyEvents logEvent) with
    | some index => some index :: matching (unmatched.erase index) logEvents
    | none => none :: matching unmatched logEvents

/-- The log events that nothing stands for. -/
def unmatchedEvents (matched : List (Option Nat)) (logEvents : List VectorLiveEvent) :
    List VectorLiveEvent :=
  ((logEvents.zip matched).filter fun entry => entry.2.isNone).map Prod.fst

/-- All proxy events, and the log events that none of them stands for. -/
def plainVectorRateEvents (logEvents : List VectorLiveEvent) : List VectorLiveEvent :=
  proxyEvents ++ unmatchedEvents
    (matching proxyEvents (List.range proxyEvents.length) logEvents) logEvents

end Events

/-! ### The buckets -/

theorem logFloor_spec {x : ℚ} (large : 1 ≤ x) :
    (5 / 4 : ℚ) ^ logFloor x ≤ x ∧ x < (5 / 4 : ℚ) ^ (logFloor x + 1) := by
  have bounded {n : Nat} (below : (5 / 4 : ℚ) ^ n ≤ x) : n ≤ ⌊4 * x⌋₊ := by
    have bernoulli := one_add_mul_le_pow (show (-2 : ℚ) ≤ 1 / 4 by norm_num) n
    have base : (1 : ℚ) + 1 / 4 = 5 / 4 := by norm_num
    rw [base] at bernoulli
    exact Nat.le_floor (by linarith)
  constructor
  · exact Nat.findGreatest_spec (P := fun n => (5 / 4 : ℚ) ^ n ≤ x) (Nat.zero_le _)
      (by simpa using large)
  · by_contra above
    have below := not_lt.mp above
    exact Nat.findGreatest_is_greatest (Nat.lt_succ_self _) (bounded below) below

/-- **The bucket of a duration** is the integer part of the logarithm that the code takes. -/
theorem vectorDurationBucket_eq (durationMs : ℚ) :
    vectorDurationBucket durationMs =
      ⌊Real.logb 1.25 (max (durationMs : ℝ) 0 + 200)⌋ := by
  have large : (1 : ℚ) ≤ max durationMs 0 + 200 := by
    have positive := le_max_right durationMs 0
    linarith
  obtain ⟨below, above⟩ := logFloor_spec large
  have base : (1.25 : ℝ) = ((5 / 4 : ℚ) : ℝ) := by norm_num
  have arg : max (durationMs : ℝ) 0 + 200 = ((max durationMs 0 + 200 : ℚ) : ℝ) := by
    push_cast
    rfl
  rw [arg, base, vectorDurationBucket]
  generalize max durationMs 0 + 200 = x at *
  have positive : (0 : ℝ) < (x : ℝ) := by exact_mod_cast lt_of_lt_of_le one_pos large
  have one_lt : (1 : ℝ) < ((5 / 4 : ℚ) : ℝ) := by norm_num
  symm
  show _ = ((logFloor x : Nat) : Int)
  rw [Int.floor_eq_iff]
  constructor
  · rw [Real.le_logb_iff_rpow_le one_lt positive]
    simp only [Int.cast_natCast, Real.rpow_natCast]
    exact_mod_cast below
  · rw [Real.logb_lt_iff_lt_rpow one_lt positive]
    have succ : ((logFloor x : Int) : ℝ) + 1 = ((logFloor x + 1 : Nat) : ℝ) := by push_cast; rfl
    rw [succ, Real.rpow_natCast]
    exact_mod_cast above

/-- Numbers within a factor of two buckets. -/
theorem logFloor_le {x y : ℚ} (x_large : 1 ≤ x) (y_large : 1 ≤ y) (near : x ≤ 25 / 16 * y) :
    logFloor x ≤ logFloor y + 2 := by
  obtain ⟨below, -⟩ := logFloor_spec x_large
  obtain ⟨-, above⟩ := logFloor_spec y_large
  have lt : (5 / 4 : ℚ) ^ logFloor x < (5 / 4 : ℚ) ^ (logFloor y + 3) := by
    calc (5 / 4 : ℚ) ^ logFloor x ≤ 25 / 16 * y := below.trans near
      _ < 25 / 16 * (5 / 4 : ℚ) ^ (logFloor y + 1) := by linarith
      _ = (5 / 4 : ℚ) ^ (logFloor y + 3) := by ring
  have exponents := (pow_lt_pow_iff_right₀ (by norm_num : (1 : ℚ) < 5 / 4)).mp lt
  omega

theorem tolerates_iff {proxyEvent logEvent : VectorLiveEvent} :
    tolerates proxyEvent logEvent = true ↔
      (proxyEvent.completedAt - logEvent.completedAt).natAbs ≤ 2000 ∧
        |proxyEvent.durationMs - logEvent.durationMs| ≤
          max |proxyEvent.durationMs| 1 * (1 / 4) + 50 := by
  simp [tolerates]

/-- **The tolerance stays within two buckets of durations**: 200 ms added to each duration
outweigh the 50 ms, and a quarter more is one bucket. -/
theorem vectorDurationBucket_near {p l : ℚ} (near : |p - l| ≤ max |p| 1 * (1 / 4) + 50) :
    vectorDurationBucket l - 2 ≤ vectorDurationBucket p ∧
      vectorDurationBucket p ≤ vectorDurationBucket l + 2 := by
  obtain ⟨low, high⟩ := abs_le.mp near
  have p_large : (1 : ℚ) ≤ max p 0 + 200 := by linarith [le_max_right p 0]
  have l_large : (1 : ℚ) ≤ max l 0 + 200 := by linarith [le_max_right l 0]
  have tolerance : max |p| 1 ≤ |p| + 1 := max_le (by linarith) (by linarith [abs_nonneg p])
  have l_le : max l 0 + 200 ≤ 25 / 16 * (max p 0 + 200) := by
    rcases le_total 0 p with positive | negative
    · rw [abs_of_nonneg positive] at tolerance low
      rw [max_eq_left positive, ← le_sub_iff_add_le]
      exact max_le (by linarith) (by linarith)
    · rw [abs_of_nonpos negative] at tolerance low
      rw [max_eq_right negative, ← le_sub_iff_add_le]
      exact max_le (by linarith) (by linarith)
  have p_le : max p 0 + 200 ≤ 25 / 16 * (max l 0 + 200) := by
    have l_max := le_max_left l 0
    have zero_max := le_max_right l 0
    rw [← le_sub_iff_add_le]
    refine max_le ?_ (by linarith)
    rcases le_total 0 p with positive | negative
    · rw [abs_of_nonneg positive] at tolerance high
      linarith
    · linarith
  have first := logFloor_le l_large p_large l_le
  have second := logFloor_le p_large l_large p_le
  unfold vectorDurationBucket
  omega

theorem timeBucket_near {p l : Int} (near : (p - l).natAbs ≤ 2000) :
    l / vectorMatchTimeBucketMs - 4 ≤ p / vectorMatchTimeBucketMs ∧
      p / vectorMatchTimeBucketMs ≤ l / vectorMatchTimeBucketMs + 4 := by
  unfold vectorMatchTimeBucketMs
  omega

/-- **No tolerated pair falls outside the buckets visited.** -/
theorem vectorKey_mem_visitedKeys {proxyEvent logEvent : VectorLiveEvent}
    (tolerated : tolerates proxyEvent logEvent = true) :
    vectorKey proxyEvent ∈ visitedKeys logEvent ↔ proxyEvent.itemCount = logEvent.itemCount := by
  obtain ⟨times, durations⟩ := tolerates_iff.mp tolerated
  have time := timeBucket_near times
  have duration := vectorDurationBucket_near durations
  simp only [visitedKeys, vectorKey, List.mem_flatMap, List.mem_map, Prod.mk.injEq]
  constructor
  · rintro ⟨_, -, _, -, same, -⟩
    exact same.symm
  · intro same
    generalize proxyEvent.completedAt / vectorMatchTimeBucketMs = p at *
    generalize logEvent.completedAt / vectorMatchTimeBucketMs = l at *
    generalize vectorDurationBucket proxyEvent.durationMs = d at *
    generalize vectorDurationBucket logEvent.durationMs = e at *
    have inTimes : (p - (l - 4)).toNat ∈ List.range 9 := List.mem_range.mpr (by omega)
    have inDurations : (d - (e - 2)).toNat ∈ List.range 5 := List.mem_range.mpr (by omega)
    exact ⟨(p - (l - 4)).toNat, inTimes, (d - (e - 2)).toNat, inDurations, same.symm,
      by omega, by omega⟩

/-! ### The loop -/

/-- The key of the proxy event at an index. -/
def keyAt (proxyEvents : List VectorLiveEvent) (index : Nat) : VectorKey :=
  (proxyEvents[index]?.map vectorKey).getD (0, 0, 0)

theorem bucketed_indexes (proxyEvents : List VectorLiveEvent) :
    Indexes (bucketed proxyEvents) (keyAt proxyEvents) (List.range proxyEvents.length) := by
  induction proxyEvents using List.reverseRecOn with
  | nil => exact indexes_empty
  | append_singleton proxyEvents event ih =>
    have built : bucketed (proxyEvents ++ [event]) =
        Buckets.push (bucketed proxyEvents) (vectorKey event) proxyEvents.length := by
      simp [bucketed, List.zipIdx_append]
    have before : Indexes (bucketed proxyEvents) (keyAt (proxyEvents ++ [event]))
        (List.range proxyEvents.length) := by
      refine ih.congr fun i at_ => ?_
      simp [keyAt, List.getElem?_append_left (List.mem_range.mp at_)]
    have last : keyAt (proxyEvents ++ [event]) proxyEvents.length = vectorKey event := by
      simp [keyAt]
    rw [built, List.length_append, List.length_singleton, List.range_succ, ← last]
    exact before.push _

section Events

variable {proxyEvents : List VectorLiveEvent} {logEvent : VectorLiveEvent}

/-- A candidate in a bucket visited is one that stands for the log event. -/
theorem standsFor_eq {index : Nat} (inside : index < proxyEvents.length) :
    (candidate proxyEvents logEvent index &&
        decide (keyAt proxyEvents index ∈ visitedKeys logEvent)) =
      standsFor proxyEvents logEvent index := by
  simp only [candidate, keyAt, standsFor, List.getElem?_eq_getElem inside, Option.any_some,
    Option.map_some, Option.getD_some]
  cases tolerated : tolerates proxyEvents[index] logEvent with
  | false => simp
  | true => simp [vectorKey_mem_visitedKeys tolerated]

/-- **The loop**: what the code adds to the rate events are the log events that nothing
stands for. -/
theorem deduplicate_eq {candidates : Dict VectorKey (List Nat)} {unmatched : List Nat}
    {rateEvents logEvents : List VectorLiveEvent}
    (indexes : Indexes candidates (keyAt proxyEvents) unmatched)
    (ordered : unmatched.Pairwise (· < ·)) (inside : ∀ i ∈ unmatched, i < proxyEvents.length) :
    deduplicate proxyEvents candidates rateEvents logEvents =
      rateEvents ++ unmatchedEvents (matching proxyEvents unmatched logEvents) logEvents := by
  induction logEvents generalizing candidates unmatched rateEvents with
  | nil => simp [deduplicate, matching, unmatchedEvents]
  | cons logEvent logEvents ih =>
    obtain ⟨first, position⟩ := @search_eq_find? _ _ _ _ _ (candidate proxyEvents logEvent)
      indexes ordered (visitedKeys logEvent)
    have first := first.trans (List.find?_congr fun i at_ =>
      Eq.trans (by congr) (@standsFor_eq proxyEvents logEvent i (inside i at_)))
    cases found : search (candidate proxyEvents logEvent) candidates (visitedKeys logEvent) with
    | none =>
      rw [found, Option.map_none] at first
      simp only [deduplicate, found, matching, ← first, ih indexes ordered inside,
        unmatchedEvents]
      simp
    | some best =>
      obtain ⟨key, place, index⟩ := best
      rw [found, Option.map_some] at first
      have removed := indexes.remove (ordered.imp Nat.ne_of_lt) (position _ found)
      have erased := ordered.sublist (List.erase_sublist (a := index))
      have stays : ∀ i ∈ unmatched.erase index, i < proxyEvents.length :=
        fun i at_ => inside i (List.mem_of_mem_erase at_)
      simp only [deduplicate, found, matching, ← first, ih removed erased stays, unmatchedEvents]
      simp

/-- Only indices left are matched, each once. -/
theorem matching_nodup {unmatched : List Nat} (nodup : unmatched.Nodup)
    (logEvents : List VectorLiveEvent) :
    ((matching proxyEvents unmatched logEvents).filterMap id).Nodup ∧
      ∀ i ∈ (matching proxyEvents unmatched logEvents).filterMap id, i ∈ unmatched := by
  induction logEvents generalizing unmatched with
  | nil => simp [matching]
  | cons logEvent logEvents ih =>
    unfold matching
    cases found : unmatched.find? (standsFor proxyEvents logEvent) with
    | none => simpa using ih nodup
    | some index =>
      obtain ⟨rest, within⟩ := ih (nodup.erase index)
      have once : index ∉ (matching proxyEvents (unmatched.erase index) logEvents).filterMap id :=
        fun again => List.Nodup.not_mem_erase nodup (within index again)
      have head : (some index :: matching proxyEvents (unmatched.erase index) logEvents).filterMap
          id = index :: (matching proxyEvents (unmatched.erase index) logEvents).filterMap id :=
        rfl
      rw [head]
      refine ⟨List.nodup_cons.mpr ⟨once, rest⟩, List.forall_mem_cons.mpr ⟨?_, ?_⟩⟩
      · exact List.mem_of_find?_eq_some found
      · exact fun i at_ => List.mem_of_mem_erase (within i at_)

end Events

/-- **Deduplication in buckets** is deduplication: the buckets are those of the logarithm,
the rate events are those of the plain procedure, every proxy event is among them, and
none stands for two log events. -/
theorem deduplicated_eq (proxyEvents logEvents : List VectorLiveEvent) :
    (∀ durationMs, vectorDurationBucket durationMs =
      ⌊Real.logb 1.25 (max (durationMs : ℝ) 0 + 200)⌋) ∧
    deduplicatedVectorRateEvents proxyEvents logEvents =
      plainVectorRateEvents proxyEvents logEvents ∧
    proxyEvents <+: deduplicatedVectorRateEvents proxyEvents logEvents ∧
    ((matching proxyEvents (List.range proxyEvents.length) logEvents).filterMap id).Nodup := by
  have same : deduplicatedVectorRateEvents proxyEvents logEvents =
      plainVectorRateEvents proxyEvents logEvents :=
    deduplicate_eq (bucketed_indexes proxyEvents) List.pairwise_lt_range
      fun i at_ => List.mem_range.mp at_
  refine ⟨vectorDurationBucket_eq, same, ?_, (matching_nodup List.nodup_range logEvents).1⟩
  rw [same]
  exact List.prefix_append _ _

end LlamaServerManager.Monitoring
