import Mathlib.Order.SuccPred.IntervalSucc
import Mathlib.Algebra.Order.Ring.Int
import Mathlib.Tactic.IntervalCases

/-!
The proleptic Gregorian calendar in days since 1970-01-01.

Months are numbered from March of the year 0, so that the leap day is the last
day of a twelve-month cycle and every offset is one formula: month `n` lies in
civil year `(n + 2) / 12` and is its month `(n + 2) % 12 + 1`. `monthOf` finds
the month of a day; what callers use is that the first of the month is monotone
in the day (`firstOfMonth_mono`).
-/

namespace LlamaServerManager.Lib.Calendar

/-- Days from 0000-03-01 to the first of March of the year. -/
def yearStart (year : Int) : Int := 365 * year + year / 4 - year / 100 + year / 400

/-- Days from the first of March to the first day of the given month of the cycle. -/
def monthOffset (month : Int) : Int := (153 * month + 2) / 5

/-- Days from 0000-03-01 to 1970-01-01. -/
def epoch : Int := 719468

/-- The first day of month `n`. -/
def monthStart (n : Int) : Int := yearStart (n / 12) + monthOffset (n % 12) - epoch

/-- The cycle a day counted from 0000-03-01 lies in: the mean year is right up to one. -/
def yearOf (day : Int) : Int :=
  let guess := 400 * day / 146097
  if day < yearStart guess then guess - 1
  else if yearStart (guess + 1) ≤ day then guess + 1
  else guess

def monthOf (day : Int) : Int :=
  let year := yearOf (day + epoch)
  12 * year + (5 * (day + epoch - yearStart year) + 2) / 153

def firstOfMonth (day : Int) : Int := monthStart (monthOf day)

/-! ### The calendar is the Gregorian one -/

def isLeap (year : Int) : Bool := year % 4 == 0 && (year % 100 != 0 || year % 400 == 0)

def daysInMonth (year month : Int) : Int :=
  if month = 2 then if isLeap year then 29 else 28
  else if month = 4 ∨ month = 6 ∨ month = 9 ∨ month = 11 then 30
  else 31

theorem yearStart_succ (year : Int) :
    yearStart (year + 1) = yearStart year + 365 + if isLeap (year + 1) then 1 else 0 := by
  unfold yearStart isLeap
  split
  · rename_i leap
    simp only [Bool.and_eq_true, beq_iff_eq, Bool.or_eq_true, bne_iff_ne] at leap
    omega
  · rename_i common
    simp only [Bool.and_eq_true, beq_iff_eq, Bool.or_eq_true, bne_iff_ne] at common
    omega

/-- The months from March to January. -/
theorem monthOffset_succ (year : Int) {month : Int} (low : 0 ≤ month) (high : month < 11) :
    monthOffset (month + 1) = monthOffset month + daysInMonth year ((month + 2) % 12 + 1) := by
  interval_cases month <;> rfl

/-- Every month has its civil length; with `monthStart_epoch` this fixes the calendar. -/
theorem monthStart_succ (n : Int) :
    monthStart (n + 1) = monthStart n + daysInMonth ((n + 2) / 12) ((n + 2) % 12 + 1) := by
  by_cases february : n % 12 = 11
  · have next : (n + 1) / 12 = n / 12 + 1 := by omega
    have first : (n + 1) % 12 = 0 := by omega
    have year : (n + 2) / 12 = n / 12 + 1 := by omega
    have month : (n + 2) % 12 + 1 = 2 := by omega
    have succ := yearStart_succ (n / 12)
    rw [monthStart, monthStart, next, first, year, month, february, daysInMonth, if_pos rfl, succ]
    split <;> (unfold monthOffset; omega)
  · have same : (n + 1) / 12 = n / 12 := by omega
    have next : (n + 1) % 12 = n % 12 + 1 := by omega
    have month : (n + 2) % 12 = (n % 12 + 2) % 12 := by omega
    have length := monthOffset_succ ((n + 2) / 12) (show 0 ≤ n % 12 by omega)
      (show n % 12 < 11 by omega)
    rw [monthStart, monthStart, same, next, month, length]
    omega

theorem daysInMonth_pos (year month : Int) : 0 < daysInMonth year month := by
  unfold daysInMonth
  split
  · split <;> decide
  · split <;> decide

theorem monthStart_lt_succ (n : Int) : monthStart n < monthStart (n + 1) := by
  have days := daysInMonth_pos ((n + 2) / 12) ((n + 2) % 12 + 1)
  rw [monthStart_succ]
  omega

theorem monthStart_mono {m n : Int} (le : m ≤ n) : monthStart m ≤ monthStart n :=
  (strictMono_int_of_lt_succ monthStart_lt_succ).monotone le

/-! ### The month of a day -/

theorem yearOf_spec (day : Int) :
    yearStart (yearOf day) ≤ day ∧ day < yearStart (yearOf day + 1) := by
  unfold yearOf
  dsimp only
  split
  · unfold yearStart at *
    omega
  · split
    · unfold yearStart at *
      omega
    · unfold yearStart at *
      omega

theorem monthOf_spec (day : Int) :
    monthStart (monthOf day) ≤ day ∧ day < monthStart (monthOf day + 1) := by
  obtain ⟨low, high⟩ := yearOf_spec (day + epoch)
  unfold monthOf monthStart
  dsimp only
  generalize yearOf (day + epoch) = year at low high
  have succ := yearStart_succ year
  have bound : day + epoch - yearStart year < 366 := by
    split at succ <;> omega
  generalize eq : day + epoch - yearStart year = rest at bound
  have cycle : (12 * year + (5 * rest + 2) / 153) / 12 = year := by omega
  have month : (12 * year + (5 * rest + 2) / 153) % 12 = (5 * rest + 2) / 153 := by omega
  rw [cycle, month]
  constructor
  · unfold monthOffset
    omega
  · by_cases last : (5 * rest + 2) / 153 = 11
    · have next : (12 * year + (5 * rest + 2) / 153 + 1) / 12 = year + 1 := by omega
      have first : (12 * year + (5 * rest + 2) / 153 + 1) % 12 = 0 := by omega
      rw [next, first]
      unfold monthOffset
      omega
    · have same : (12 * year + (5 * rest + 2) / 153 + 1) / 12 = year := by omega
      have next : (12 * year + (5 * rest + 2) / 153 + 1) % 12 = (5 * rest + 2) / 153 + 1 := by omega
      rw [same, next]
      unfold monthOffset
      omega

theorem firstOfMonth_le (day : Int) : firstOfMonth day ≤ day := (monthOf_spec day).1

theorem firstOfMonth_mono {day later : Int} (h : day ≤ later) :
    firstOfMonth day ≤ firstOfMonth later := by
  apply monthStart_mono
  by_contra before
  have next : monthOf later + 1 ≤ monthOf day := by omega
  have started := monthStart_mono next
  have low := (monthOf_spec day).1
  have high := (monthOf_spec later).2
  omega

end LlamaServerManager.Lib.Calendar
