import LlamaServerManager.Lib.SortedMap
import LlamaServerManager.UsageStore.Store

/-!
The percentiles of a latency histogram (`usage_histogram.rs`).

`Latency.Histogram` keeps the buckets as the `BTreeMap` of the source does, in
ascending order; `toStore` forgets the order, and what it gives is what the
aggregates of the store keep (`toStore_histogram`). However the samples are split,
observed and merged, the histogram is the one that `Describes` them
(`Population.describes`), and a percentile is the upper bound of the bucket of
the exact one (`percentile_eq`).
-/

namespace LlamaServerManager.UsageStore.Latency

open Lib
open Quota (saturatingAdd)
open UsageStore.Histogram (upper)

/-! ### Buckets -/

/-- `u64::leading_zeros`. -/
def leadingZeros (value : Nat) : Nat := if value = 0 then 64 else 63 - Nat.log2 value

/-- `1_u64 << shift`, which overflows from 64 on. -/
def shl (shift : Nat) : Option Nat := if shift < 64 then some (2 ^ shift) else none

/-- `u64::div_ceil`, which fails for a divisor of zero. -/
def divCeil (value step : Nat) : Option Nat :=
  if step = 0 then none else some ((value + step - 1) / step)

/-- The bucket of a value, with every operation checked. -/
def bucketUpper (value : Nat) : Option Nat := do
  let exponent := 63 - leadingZeros value
  let step ← shl (exponent - 4)
  let quotient ← divCeil value step
  some (min (quotient * step) (2 ^ 64 - 1))

structure Histogram where
  buckets : SortedMap Nat Nat := {}
  count : Nat := 0
  max : Nat := 0

namespace Histogram

def observe (h : Histogram) (value : Nat) : Histogram where
  buckets := h.buckets.update (upper value) fun bucket => saturatingAdd (bucket.getD 0) 1
  count := saturatingAdd h.count 1
  max := Max.max h.max value

def merge (h other : Histogram) : Histogram where
  buckets := h.buckets.merge other.buckets fun bucket count => saturatingAdd (bucket.getD 0) count
  count := saturatingAdd h.count other.count
  max := Max.max h.max other.max

/-- The first bucket at which as many samples as the rank were seen. -/
def scan (rank : Nat) : Nat → List (Nat × Nat) → Option Nat
  | _, [] => none
  | seen, (upper, count) :: rest =>
    let seen := seen + count
    if rank ≤ seen then some upper else scan rank seen rest

def percentile (h : Histogram) (percent : Nat) : Option Nat :=
  if h.count = 0 then none
  else
    let rank := (h.count * percent + 99) / 100
    (scan rank 0 h.buckets.entries).map fun upper => min upper h.max

end Histogram

/-- The histogram without the order of its buckets. -/
def Histogram.toStore (h : Histogram) : UsageStore.Histogram where
  buckets bound := (h.buckets.lookup bound).getD 0
  count := h.count
  max := h.max

theorem Histogram.toStore_observe (h : Histogram) (value : Nat) :
    (h.observe value).toStore = h.toStore.observe value := by
  have buckets : (h.observe value).toStore.buckets = (h.toStore.observe value).buckets := by
    funext bound
    by_cases same : bound = upper value
    · subst same
      simp [toStore, observe, UsageStore.Histogram.observe]
    · simp [toStore, observe, UsageStore.Histogram.observe, same]
  exact congrArg (fun buckets => UsageStore.Histogram.mk buckets _ _) buckets

/-- The counters are `u64`s. -/
theorem Histogram.toStore_merge {h : Histogram} (other : Histogram)
    (u64 : ∀ bound, (h.buckets.lookup bound).getD 0 < 2 ^ 64) :
    (h.merge other).toStore = h.toStore.merge other.toStore := by
  have buckets : (h.merge other).toStore.buckets = (h.toStore.merge other.toStore).buckets := by
    funext bound
    simp only [toStore, merge, UsageStore.Histogram.merge, SortedMap.lookup_merge]
    cases other.buckets.lookup bound with
    | none =>
      have := u64 bound
      simp only [Option.getD_none, Quota.saturatingAdd]
      omega
    | some count => simp
  exact congrArg (fun buckets => UsageStore.Histogram.mk buckets _ _) buckets

/-! ### The bucket of a value -/

theorem step_pos (value : Nat) : 0 < 2 ^ (Nat.log2 value - 4) := Nat.pow_pos (by decide)

theorem log2_lt {value : Nat} (u64 : value < 2 ^ 64) : Nat.log2 value < 64 := by
  by_cases zero : value = 0
  · subst zero
    decide
  · exact (Nat.log2_lt zero).mpr u64

theorem log2_mono {value other : Nat} (le : value ≤ other) : Nat.log2 value ≤ Nat.log2 other := by
  by_cases zero : value = 0
  · subst zero
    simp
  · exact (Nat.le_log2 (by omega)).mpr ((Nat.log2_self_le zero).trans le)

/-- **No bucket computation overflows.** -/
theorem bucketUpper_eq {value : Nat} (u64 : value < 2 ^ 64) :
    bucketUpper value = some (upper value) := by
  have exponent : 63 - leadingZeros value = Nat.log2 value := by
    unfold leadingZeros
    split
    · rename_i zero
      subst zero
      decide
    · have := log2_lt u64
      omega
  have inRange : Nat.log2 value - 4 < 64 := by
    have := log2_lt u64
    omega
  simp [bucketUpper, exponent, shl, inRange, divCeil, upper]

/-- A value rounded up to a multiple of a step. -/
theorem le_ceil {value step : Nat} (pos : 0 < step) : value ≤ (value + step - 1) / step * step := by
  have := Nat.lt_div_mul_add pos (a := value + step - 1)
  omega

theorem ceil_le {value step bound : Nat} (pos : 0 < step) (le : value ≤ bound * step) :
    (value + step - 1) / step * step ≤ bound * step := by
  refine Nat.mul_le_mul_right step ?_
  rw [Nat.div_le_iff_le_mul pos]
  omega

theorem ceil_lt {value step : Nat} (pos : 0 < step) :
    (value + step - 1) / step * step < value + step := by
  have := Nat.div_mul_le_self (value + step - 1) step
  omega

theorem le_upper {value : Nat} (u64 : value < 2 ^ 64) : value ≤ upper value := by
  refine Nat.le_min.mpr ⟨le_ceil (step_pos value), ?_⟩
  omega

/-- The bound exceeds the value by less than a sixteenth of it. -/
theorem upper_le (value : Nat) : upper value ≤ value + value / 16 := by
  have below : upper value < value + 2 ^ (Nat.log2 value - 4) :=
    (Nat.min_le_left _ _).trans_lt (ceil_lt (step_pos value))
  by_cases small : Nat.log2 value ≤ 4
  · rw [Nat.sub_eq_zero_of_le small, Nat.pow_zero] at below
    omega
  · have some_ : value ≠ 0 := by
      rintro rfl
      exact small (by decide)
    have least := Nat.log2_self_le some_
    have sixteen : 2 ^ Nat.log2 value = 16 * 2 ^ (Nat.log2 value - 4) := by
      rw [show (16 : Nat) = 2 ^ 4 from rfl, ← Nat.pow_add]
      congr 1
      omega
    omega

theorem upper_eq {value : Nat} (small : value < 32) : upper value = value := by
  have u64 : value < 2 ^ 64 := by omega
  have below : upper value < value + 2 ^ (Nat.log2 value - 4) :=
    (Nat.min_le_left _ _).trans_lt (ceil_lt (step_pos value))
  have exponent : Nat.log2 value ≤ 4 := by
    by_cases zero : value = 0
    · subst zero
      decide
    · exact Nat.le_of_lt_succ ((Nat.log2_lt zero).mpr small)
  rw [Nat.sub_eq_zero_of_le exponent, Nat.pow_zero] at below
  have := le_upper u64
  omega

/-- Larger values are in no smaller buckets. -/
theorem upper_mono {value other : Nat} (u64 : other < 2 ^ 64) (le : value ≤ other) :
    upper value ≤ upper other := by
  by_cases same : Nat.log2 value = Nat.log2 other
  · unfold upper
    rw [same]
    have := Nat.div_le_div_right (c := 2 ^ (Nat.log2 other - 4))
      (show value + 2 ^ (Nat.log2 other - 4) - 1 ≤ other + 2 ^ (Nat.log2 other - 4) - 1 by omega)
    exact min_le_min_right _ (Nat.mul_le_mul_right _ this)
  · have exponents : Nat.log2 value < Nat.log2 other := by
      have := log2_mono le
      omega
    have some_ : other ≠ 0 := by
      rintro rfl
      exact absurd exponents (by simp)
    -- The buckets of the smaller values end at the next power of two.
    have width : 2 ^ (Nat.log2 value + 1) =
        2 ^ (Nat.log2 value + 1 - (Nat.log2 value - 4)) * 2 ^ (Nat.log2 value - 4) := by
      rw [← Nat.pow_add]
      congr 1
      omega
    have inside : value ≤ 2 ^ (Nat.log2 value + 1) := (Nat.lt_log2_self).le
    rw [width] at inside
    have bound := ceil_le (step_pos value) inside
    rw [← width] at bound
    calc upper value ≤ 2 ^ (Nat.log2 value + 1) := (Nat.min_le_left _ _).trans bound
      _ ≤ 2 ^ Nat.log2 other := Nat.pow_le_pow_right (by decide) exponents
      _ ≤ other := Nat.log2_self_le some_
      _ ≤ upper other := le_upper u64

/-! ### Populations -/

namespace Histogram

/-- The number of samples in a bucket. -/
def inBucket (samples : List Nat) (bound : Nat) : Nat :=
  samples.countP fun value => upper value == bound

/-- The histogram of the samples, in whatever order they are listed. -/
structure Describes (h : Histogram) (samples : List Nat) : Prop where
  buckets : ∀ bound, h.buckets.lookup bound =
    if inBucket samples bound = 0 then none else some (inBucket samples bound)
  count : h.count = samples.length
  max : h.max = samples.foldr Max.max 0

variable {h other : Histogram} {samples more : List Nat} {value : Nat}

theorem Describes.empty : Describes {} [] where
  buckets _ := rfl
  count := rfl
  max := rfl

theorem saturatingAdd_eq {a b : Nat} (few : a + b < 2 ^ 64) : saturatingAdd a b = a + b := by
  unfold Quota.saturatingAdd
  omega

theorem Describes.getD (describes : h.Describes samples) (bound : Nat) :
    (h.buckets.lookup bound).getD 0 = inBucket samples bound := by
  rw [describes.buckets]
  split
  · rename_i none
    exact none.symm
  · rfl

theorem inBucket_le (samples : List Nat) (bound : Nat) : inBucket samples bound ≤ samples.length :=
  List.countP_le_length

theorem inBucket_cons (value : Nat) (samples : List Nat) (bound : Nat) :
    inBucket (value :: samples) bound =
      inBucket samples bound + if upper value = bound then 1 else 0 := by
  simp [inBucket, List.countP_cons]

theorem Describes.observe (describes : h.Describes samples) (few : samples.length + 1 < 2 ^ 64) :
    (h.observe value).Describes (value :: samples) where
  buckets bound := by
    have fits := inBucket_le samples (upper value)
    by_cases same : bound = upper value
    · subst same
      have counted : saturatingAdd (inBucket samples (upper value)) 1 =
          inBucket samples (upper value) + 1 := saturatingAdd_eq (by omega)
      simp [Histogram.observe, describes.getD, counted, inBucket_cons]
    · simp [Histogram.observe, same, describes.buckets, inBucket_cons, Ne.symm same]
  count := by
    have := saturatingAdd_eq few
    simp [Histogram.observe, describes.count, this]
  max := by simp [Histogram.observe, describes.max, Nat.max_comm]

theorem Describes.observeAll (describes : h.Describes samples) {order : List Nat}
    (few : order.length + samples.length < 2 ^ 64) :
    (order.foldl Histogram.observe h).Describes (order.reverse ++ samples) := by
  induction order generalizing h samples with
  | nil => exact describes
  | cons value order ih =>
    rw [List.length_cons] at few
    have first : (h.observe value).Describes (value :: samples) := describes.observe (by omega)
    have next := ih first (by rw [List.length_cons]; omega)
    rw [List.reverse_cons, List.append_assoc]
    exact next

theorem inBucket_append (samples more : List Nat) (bound : Nat) :
    inBucket (samples ++ more) bound = inBucket samples bound + inBucket more bound :=
  List.countP_append

theorem foldr_max_append (samples more : List Nat) :
    (samples ++ more).foldr Max.max 0 =
      Max.max (samples.foldr Max.max 0) (more.foldr Max.max 0) := by
  induction samples with
  | nil => simp
  | cons value samples ih => simp [ih, Nat.max_assoc]

/-- **Merging adds the populations up.** -/
theorem Describes.merge (one : h.Describes samples) (two : other.Describes more)
    (few : (samples ++ more).length < 2 ^ 64) : (h.merge other).Describes (samples ++ more) where
  buckets bound := by
    have fits := inBucket_le (samples ++ more) bound
    rw [inBucket_append] at fits ⊢
    have sum : saturatingAdd (inBucket samples bound) (inBucket more bound) =
        inBucket samples bound + inBucket more bound := saturatingAdd_eq (by omega)
    rw [Histogram.merge, SortedMap.lookup_merge, two.buckets]
    by_cases none_ : inBucket more bound = 0
    · simp [none_, one.buckets]
    · simp [none_, one.getD, sum]
  count := by
    rw [List.length_append] at few ⊢
    simp [Histogram.merge, one.count, two.count, saturatingAdd_eq few]
  max := by rw [foldr_max_append, ← one.max, ← two.max]; rfl

/-- **The samples determine the histogram, in any order.** -/
theorem Describes.unique (one : h.Describes samples) (two : other.Describes more)
    (same : samples.Perm more) : h = other := by
  have buckets : h.buckets = other.buckets := by
    refine SortedMap.ext_lookup fun bound => ?_
    rw [one.buckets, two.buckets, inBucket, inBucket, same.countP_eq]
  have count : h.count = other.count := by rw [one.count, two.count, same.length_eq]
  have max : h.max = other.max := by
    rw [one.max, two.max]
    exact same.foldr_eq' (fun a _ b _ c => Nat.max_left_comm b a c) 0
  cases h
  cases other
  simp_all

end Histogram

/-- Samples that are observed and merged in any order and nesting. -/
inductive Population where
  | empty
  | observe (population : Population) (value : Nat)
  | merge (population other : Population)

namespace Population

def samples : Population → List Nat
  | empty => []
  | observe population value => value :: population.samples
  | merge population other => population.samples ++ other.samples

def histogram : Population → Histogram
  | empty => {}
  | observe population value => population.histogram.observe value
  | merge population other => population.histogram.merge other.histogram

/-- **The histogram of a population describes its samples.** -/
theorem describes (population : Population) (few : population.samples.length < 2 ^ 64) :
    population.histogram.Describes population.samples := by
  induction population with
  | empty => exact .empty
  | observe population value ih =>
    rw [samples, List.length_cons] at few
    exact (ih (by omega)).observe few
  | merge population other one two =>
    have few' := few
    rw [samples, List.length_append] at few'
    exact (one (by omega)).merge (two (by omega)) few

/-- The population as the aggregates of the store keep it. -/
def stored : Population → UsageStore.Histogram
  | empty => {}
  | observe population value => population.stored.observe value
  | merge population other => population.stored.merge other.stored

/-- **The store keeps the same histogram**, but for the order of the buckets, which its
functions do not ask for. The bound keeps the counters of the buckets in range. -/
theorem toStore_histogram (population : Population)
    (few : population.samples.length < 2 ^ 64) :
    population.histogram.toStore = population.stored := by
  induction population with
  | empty => rfl
  | observe population value ih =>
    rw [samples, List.length_cons] at few
    rw [histogram, stored, Histogram.toStore_observe, ih (by omega)]
  | merge population other one two =>
    rw [samples, List.length_append] at few
    have u64 : ∀ bound, (population.histogram.buckets.lookup bound).getD 0 < 2 ^ 64 := by
      intro bound
      rw [(population.describes (by omega)).getD]
      have := Histogram.inBucket_le population.samples bound
      omega
    rw [histogram, stored, Histogram.toStore_merge _ u64, one (by omega), two (by omega)]

end Population

/-! ### Percentiles -/

/-- The sample of the rank `⌈n * percent / 100⌉`, with the samples in ascending order. -/
def exactPercentile (samples : List Nat) (percent : Nat) : Option Nat :=
  (samples.mergeSort fun a b => decide (a ≤ b))[(samples.length * percent + 99) / 100 - 1]?

/-- The sample of a rank: fewer samples are below it, and enough are not above it. -/
structure Ranked (samples : List Nat) (rank sample : Nat) : Prop where
  mem : sample ∈ samples
  below : samples.countP (· < sample) < rank
  reached : rank ≤ samples.countP (· ≤ sample)

theorem ranked_of_sorted {sorted : List Nat} (ascending : sorted.Pairwise (· ≤ ·)) {i sample : Nat}
    (at_ : sorted[i]? = some sample) : Ranked sorted (i + 1) sample := by
  obtain ⟨inside, rfl⟩ := List.getElem?_eq_some_iff.mp at_
  have split := List.take_append_drop i sorted
  have head : ∀ x ∈ sorted.take (i + 1), x ≤ sorted[i] := by
    intro x mem
    obtain ⟨k, bound, rfl⟩ := List.mem_take_iff_getElem.mp mem
    have order := List.pairwise_iff_getElem.mp ascending k i
    rcases Nat.lt_or_ge k i with before | after
    · exact order (by omega) inside before
    · have : k = i := by omega
      subst this
      exact Nat.le_refl _
  have tail : ∀ x ∈ sorted.drop i, sorted[i] ≤ x := by
    intro x mem
    obtain ⟨k, bound, rfl⟩ := List.mem_drop_iff_getElem.mp mem
    rcases Nat.eq_zero_or_pos k with rfl | pos
    · exact Nat.le_refl _
    · exact List.pairwise_iff_getElem.mp ascending i (i + k) inside (by omega) (by omega)
  refine ⟨List.getElem_mem inside, ?_, ?_⟩
  · have none_ : (sorted.drop i).countP (· < sorted[i]) = 0 := by
      rw [List.countP_eq_zero]
      intro x mem
      simpa using tail x mem
    have few : (sorted.take i).countP (· < sorted[i]) ≤ i :=
      List.countP_le_length.trans (List.length_take_le i sorted)
    have counted := congrArg (List.countP (· < sorted[i])) split
    rw [List.countP_append] at counted
    omega
  · have all : (sorted.take (i + 1)).countP (· ≤ sorted[i]) = i + 1 := by
      rw [List.countP_eq_length.mpr (by simpa using head), List.length_take]
      omega
    have some_ := (List.take_sublist (i + 1) sorted).countP_le (p := (· ≤ sorted[i]))
    omega

theorem Ranked.perm {samples more : List Nat} {rank sample : Nat}
    (ranked : Ranked samples rank sample) (same : samples.Perm more) : Ranked more rank sample where
  mem := same.mem_iff.mp ranked.mem
  below := same.countP_eq _ ▸ ranked.below
  reached := same.countP_eq _ ▸ ranked.reached

/-- The samples in ascending order. -/
theorem sorted_samples (samples : List Nat) :
    (samples.mergeSort fun a b => decide (a ≤ b)).Pairwise (· ≤ ·) := by
  have sorted : (samples.mergeSort fun a b => decide (a ≤ b)).Pairwise
      fun a b => decide (a ≤ b) = true :=
    List.pairwise_mergeSort (by simpa using fun a b c => Nat.le_trans)
      (by simpa using Nat.le_total) samples
  exact sorted.imp of_decide_eq_true

theorem exactPercentile_ranked {samples : List Nat} {percent sample : Nat}
    (some_ : samples ≠ []) (pos : 0 < percent)
    (exact_ : exactPercentile samples percent = some sample) :
    Ranked samples ((samples.length * percent + 99) / 100) sample := by
  have ranked := ranked_of_sorted (sorted_samples samples) exact_
  have product : 1 ≤ samples.length * percent :=
    Nat.mul_pos (List.length_pos_iff.mpr some_) pos
  have rank : (samples.length * percent + 99) / 100 - 1 + 1 =
      (samples.length * percent + 99) / 100 := by omega
  rw [rank] at ranked
  exact ranked.perm (List.mergeSort_perm samples _)

theorem exactPercentile_isSome {samples : List Nat} {percent : Nat} (some_ : samples ≠ [])
    (most : percent ≤ 100) : (exactPercentile samples percent).isSome := by
  have pos := List.length_pos_iff.mpr some_
  have bound : samples.length * percent ≤ samples.length * 100 := Nat.mul_le_mul_left _ most
  have inside : (samples.length * percent + 99) / 100 - 1 <
      (samples.mergeSort fun a b => decide (a ≤ b)).length := by
    rw [List.length_mergeSort]
    omega
  rw [exactPercentile, List.getElem?_eq_getElem inside]
  rfl

theorem exactPercentile_mono {samples : List Nat} {percent other sample more : Nat}
    (le : percent ≤ other) (one : exactPercentile samples percent = some sample)
    (two : exactPercentile samples other = some more) : sample ≤ more := by
  obtain ⟨inside, rfl⟩ := List.getElem?_eq_some_iff.mp one
  obtain ⟨inside', rfl⟩ := List.getElem?_eq_some_iff.mp two
  have product : samples.length * percent ≤ samples.length * other := Nat.mul_le_mul_left _ le
  rcases Nat.eq_or_lt_of_le (show (samples.length * percent + 99) / 100 - 1 ≤
    (samples.length * other + 99) / 100 - 1 by omega) with same | before
  · simp [same]
  · exact List.pairwise_iff_getElem.mp (sorted_samples samples) _ _ inside inside' before

/-! ### The scan -/

namespace Histogram

/-- The samples in the buckets. -/
def total (entries : List (Nat × Nat)) : Nat := (entries.map Prod.snd).sum

/-- The scan stops where the rank is reached. -/
theorem scan_eq {rank seen bound count : Nat} {before after : List (Nat × Nat)}
    (below : seen + total before < rank) (reached : rank ≤ seen + total before + count) :
    scan rank seen (before ++ (bound, count) :: after) = some bound := by
  induction before generalizing seen with
  | nil =>
    have : rank ≤ seen + count := by simpa [total] using reached
    simp [scan, this]
  | cons entry before ih =>
    obtain ⟨other, first⟩ := entry
    simp only [total, List.map_cons, List.sum_cons] at below reached ih
    have early : ¬ rank ≤ seen + first := by omega
    rw [List.cons_append, scan]
    simp only [early, if_false]
    exact ih (by omega) (by omega)

variable {h : Histogram} {samples : List Nat}

theorem countP_or {α : Type} {p q : α → Bool} {xs : List α}
    (apart : ∀ x, p x = true → q x = false) :
    xs.countP (fun x => p x || q x) = xs.countP p + xs.countP q := by
  induction xs with
  | nil => rfl
  | cons x xs ih =>
    have := apart x
    cases hp : p x <;> cases hq : q x <;> simp_all <;> omega

/-- The bucket of a value is listed. -/
def listed (entries : List (Nat × Nat)) (value : Nat) : Bool :=
  entries.any fun entry => upper value == entry.1

/-- Buckets that count their samples hold all samples whose bucket is listed. -/
theorem total_eq {entries : List (Nat × Nat)} (sorted : entries.Pairwise fun a b => a.1 < b.1)
    (counts : ∀ entry ∈ entries, entry.2 = inBucket samples entry.1) :
    total entries = samples.countP (listed entries) := by
  induction entries with
  | nil =>
    have none_ : listed [] = fun _ => false := rfl
    simp [total, none_]
  | cons entry rest ih =>
    have above := (List.pairwise_cons.mp sorted).1
    have apart : ∀ value, (upper value == entry.1) = true → listed rest value = false := by
      intro value same
      rw [beq_iff_eq] at same
      refine List.any_eq_false.mpr fun other mem => ?_
      have := above other mem
      simp
      omega
    have rest_ := ih (List.pairwise_cons.mp sorted).2 fun other mem =>
      counts other (List.mem_cons_of_mem _ mem)
    have split : samples.countP (listed (entry :: rest)) =
        inBucket samples entry.1 + samples.countP (listed rest) := countP_or apart
    rw [split, ← rest_, ← counts entry List.mem_cons_self]
    rfl

theorem Describes.listed (describes : h.Describes samples) {value : Nat} (mem : value ∈ samples) :
    ∃ count, (upper value, count) ∈ h.buckets.entries := by
  have some_ : inBucket samples (upper value) ≠ 0 := by
    refine Nat.ne_of_gt (List.countP_pos_iff.mpr ⟨value, mem, ?_⟩)
    simp
  exact ⟨_, SortedMap.mem_entries.mpr ((describes.buckets _).trans (if_neg some_))⟩

theorem Describes.counts (describes : h.Describes samples) :
    ∀ entry ∈ h.buckets.entries, entry.2 = inBucket samples entry.1 := by
  rintro ⟨bound, count⟩ mem
  have found := SortedMap.mem_entries.mp mem
  rw [describes.buckets] at found
  split at found
  · cases found
  · exact (Option.some.inj found).symm

/-- **The scan finds the bucket of the sample of the rank.** -/
theorem Describes.scan (describes : h.Describes samples) (u64 : ∀ value ∈ samples, value < 2 ^ 64)
    {rank sample : Nat} (ranked : Ranked samples rank sample) :
    Histogram.scan rank 0 h.buckets.entries = some (upper sample) := by
  obtain ⟨count, listed⟩ := describes.listed ranked.mem
  obtain ⟨before, after, entries⟩ := List.append_of_mem listed
  have sorted := h.buckets.sorted
  have counts := describes.counts
  rw [entries] at sorted counts ⊢
  have below := (List.pairwise_append.mp sorted).2.2
  have behind := (List.pairwise_cons.mp (List.pairwise_append.mp sorted).2.1).1
  have held : total before = samples.countP (Histogram.listed before) :=
    total_eq (List.pairwise_append.mp sorted).1 fun entry mem =>
      counts entry (List.mem_append_left _ mem)
  have heldBy : total (before ++ [(upper sample, count)]) =
      samples.countP (Histogram.listed (before ++ [(upper sample, count)])) := by
    refine total_eq ?_ fun entry mem => counts entry ?_
    · refine sorted.sublist (List.Sublist.append_left ?_ _)
      simp
    · rcases List.mem_append.mp mem with mem | mem
      · exact List.mem_append_left _ mem
      · exact List.mem_append_right _ (List.mem_singleton.mp mem ▸ List.mem_cons_self)
  refine scan_eq ?_ ?_
  · -- Only smaller samples are in the buckets before.
    have fewer : samples.countP (Histogram.listed before) ≤ samples.countP (· < sample) := by
      refine List.countP_mono_left fun value mem inside => ?_
      obtain ⟨entry, there, same⟩ := List.any_eq_true.mp inside
      have smaller := below entry there _ List.mem_cons_self
      rw [beq_iff_eq] at same
      rw [decide_eq_true_eq]
      by_contra above
      have := upper_mono (u64 value mem) (Nat.not_lt.mp above)
      omega
    have := ranked.below
    omega
  · -- No sample up to this one is in a bucket behind.
    have more : samples.countP (· ≤ sample) ≤
        samples.countP (Histogram.listed (before ++ [(upper sample, count)])) := by
      refine List.countP_mono_left fun value mem le => ?_
      have order := upper_mono (u64 sample ranked.mem) (of_decide_eq_true le)
      obtain ⟨other, there⟩ := describes.listed mem
      rw [entries] at there
      refine List.any_eq_true.mpr ⟨(upper value, other), ?_, by simp⟩
      rcases List.mem_append.mp there with there | there
      · exact List.mem_append_left _ there
      · rcases List.mem_cons.mp there with same | there
        · rw [same]
          simp
        · have := behind _ there
          omega
    have := ranked.reached
    simp only [total, List.map_append, List.sum_append, List.map_cons, List.map_nil,
      List.sum_singleton] at heldBy
    simp only [total]
    omega

/-- **A percentile is the bucket of the exact one, cut at the greatest sample.** -/
theorem Describes.percentile_eq (describes : h.Describes samples) (some_ : samples ≠ [])
    (u64 : ∀ value ∈ samples, value < 2 ^ 64) {percent sample : Nat} (pos : 0 < percent)
    (exact_ : exactPercentile samples percent = some sample) :
    h.percentile percent = some (min (upper sample) (samples.foldr Max.max 0)) := by
  have ranked := exactPercentile_ranked some_ pos exact_
  have count : h.count ≠ 0 := by
    rw [describes.count]
    exact Nat.ne_of_gt (List.length_pos_iff.mpr some_)
  simp only [percentile, count, if_false]
  rw [describes.count, describes.scan u64 ranked, describes.max]
  rfl

theorem le_max {value : Nat} (mem : value ∈ samples) : value ≤ samples.foldr Max.max 0 := by
  induction samples with
  | nil => cases mem
  | cons first rest ih =>
    rcases List.mem_cons.mp mem with rfl | mem
    · exact Nat.le_max_left ..
    · exact (ih mem).trans (Nat.le_max_right ..)

end Histogram

/-- **However a population is split, observed and merged, the histogram is the one of
its samples, and a percentile is less than a sixteenth above the exact one.** Small
values are exact, percentiles grow with the percentage and do not exceed the maximum,
and no bucket computation leaves 64 bits. -/
theorem histogram_percentiles (population : Population)
    (few : population.samples.length < 2 ^ 64)
    (u64 : ∀ value ∈ population.samples, value < 2 ^ 64) :
    (∀ order : List Nat, order.Perm population.samples →
      population.histogram = order.foldl Histogram.observe {}) ∧
    (population.samples = [] → ∀ percent, population.histogram.percentile percent = none) ∧
    (population.samples ≠ [] → ∀ percent, 1 ≤ percent → percent ≤ 100 →
      ∃ exact_ value, exactPercentile population.samples percent = some exact_ ∧
        population.histogram.percentile percent = some value ∧
        exact_ ≤ value ∧ value ≤ exact_ + exact_ / 16 ∧ (exact_ < 32 → value = exact_) ∧
        value ≤ population.samples.foldr Max.max 0) ∧
    (∀ percent other value more, 1 ≤ percent → percent ≤ other → other ≤ 100 →
      population.histogram.percentile percent = some value →
      population.histogram.percentile other = some more → value ≤ more) ∧
    ∀ value, value < 2 ^ 64 → bucketUpper value = some (upper value) := by
  have describes := population.describes few
  have empty : population.samples = [] → ∀ percent,
      population.histogram.percentile percent = none := by
    intro none_ percent
    have count : population.histogram.count = 0 := by rw [describes.count, none_]; rfl
    simp [Histogram.percentile, count]
  refine ⟨?_, empty, ?_, ?_, fun value => bucketUpper_eq⟩
  · intro order same
    have all : (order.foldl Histogram.observe {}).Describes (order.reverse ++ []) :=
      Histogram.Describes.empty.observeAll (by simpa using same.length_eq ▸ few)
    rw [List.append_nil] at all
    exact describes.unique all (same.symm.trans (List.reverse_perm order).symm)
  · intro some_ percent pos most
    obtain ⟨exact_, is⟩ := Option.isSome_iff_exists.mp (exactPercentile_isSome some_ most)
    have mem := (exactPercentile_ranked some_ pos is).mem
    have top := Histogram.le_max mem
    have above := le_upper (u64 exact_ mem)
    have close := upper_le exact_
    refine ⟨exact_, _, is, describes.percentile_eq some_ u64 pos is, Nat.le_min.mpr ⟨above, top⟩,
      (Nat.min_le_left ..).trans close, ?_, Nat.min_le_right ..⟩
    intro small
    rw [upper_eq small]
    exact Nat.min_eq_left top
  · intro percent other value more pos le most one two
    by_cases some_ : population.samples = []
    · rw [empty some_] at one
      cases one
    · obtain ⟨first, is⟩ :=
        Option.isSome_iff_exists.mp (exactPercentile_isSome some_ (le.trans most))
      obtain ⟨second, is'⟩ := Option.isSome_iff_exists.mp (exactPercentile_isSome some_ most)
      rw [describes.percentile_eq some_ u64 pos is] at one
      rw [describes.percentile_eq some_ u64 (pos.trans le) is'] at two
      obtain rfl := Option.some.inj one
      obtain rfl := Option.some.inj two
      have mem := (exactPercentile_ranked some_ (pos.trans le) is').mem
      exact min_le_min_right _ (upper_mono (u64 second mem) (exactPercentile_mono le is is'))

/-- Two parts, merged: 7 and 100 in one, 1000 in the other. -/
def twoParts : Population :=
  .merge (.observe (.observe .empty 7) 100) (.observe .empty 1000)

theorem histogram_percentiles_twoParts :
    ∃ exact_ value, exactPercentile twoParts.samples 50 = some exact_ ∧
      twoParts.histogram.percentile 50 = some value ∧ exact_ ≤ value ∧
      value ≤ exact_ + exact_ / 16 := by
  have parts := histogram_percentiles twoParts (by decide) (by decide)
  obtain ⟨exact_, value, is, found, above, close, -⟩ :=
    parts.2.2.1 (by simp [twoParts, Population.samples]) 50 (by decide) (by decide)
  exact ⟨exact_, value, is, found, above, close⟩

end LlamaServerManager.UsageStore.Latency
