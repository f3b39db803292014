/-
# Timestamps of the object store

The object store dates its objects in UTC by texts of 24 characters. The cache engine reads
the fields by position and hands them to `mktime` as they are, although `mktime` counts
years from 1900 and months from zero. What comes out is a date 1900 years and one month
later. Where that month is too short for the day, the days go on into the month after it, and
the clock, which counts nanoseconds in 64 bits, has turned over several times by then. This
module has the conversion, and determines which pairs of dates it brings out of order.
-/

import Yadcc.Lib.Calendar

namespace Yadcc.Cache

open Yadcc.Lib Calendar
open Yadcc.Lib.Shell (ascii)

/-! ## The conversion -/

/-- The fields of `std::tm` that are set. -/
structure Tm where
  year : ℕ
  mon : ℕ
  mday : ℕ
  hour : ℕ
  min : ℕ
  sec : ℕ

def secondsPerDay : ℕ := 86400

/-- The days before 1970. -/
def daysBeforeEpoch : ℕ := daysBeforeMonth (12 * 1970)

/-- `mktime` in UTC. Years count from 1900 and months from zero; what is beyond the end of a
year or a month goes on in the next one. -/
def mktime (time : Tm) : ℤ :=
  (daysBeforeMonth (12 * (1900 + time.year) + time.mon) + time.mday - 1 - daysBeforeEpoch : ℤ) *
    secondsPerDay + (time.hour * 3600 + time.min * 60 + time.sec : ℕ)

/-- `std::chrono::system_clock::from_time_t`: the clock counts nanoseconds in 64 bits. -/
def fromTimeT (time : ℤ) : ℤ := Int.bmod (time * 10 ^ 9) (2 ^ 64)

/-- Functions of the RPC library and of the standard library: `TryParse<std::uint32_t>` of
bytes, and `std::sort` by a key that is a time, the latest first. -/
structure CosLibrary where
  tryParse : Bytes → Option ℕ
  sort : {α : Type} → (α → ℤ) → List α → List α

structure CosLibrary.Documented (lib : CosLibrary) : Prop where
  tryParse : ∀ digits, digits ≠ [] → (∀ b ∈ digits, isDigit b = true) →
    decimalValue digits < 2 ^ 32 → lib.tryParse digits = some (decimalValue digits)
  perm : ∀ {α : Type} (time : α → ℤ) (list : List α), (lib.sort time list).Perm list
  sorted : ∀ {α : Type} (time : α → ℤ) (list : List α),
    (lib.sort time list).Pairwise fun x y => time y ≤ time x

def kExpectSize : ℕ := "2020-12-10T03:37:30.000Z".length

def substr (str : Bytes) (pos count : ℕ) : Bytes := (str.drop pos).take count

def fromIso8601Timestamp (lib : CosLibrary) (str : Bytes) : Option ℤ :=
  if str.length ≠ kExpectSize then none
  else do
    let year ← lib.tryParse (substr str 0 4)
    let mon ← lib.tryParse (substr str 5 2)
    let day ← lib.tryParse (substr str 8 2)
    let hour ← lib.tryParse (substr str 11 2)
    let min ← lib.tryParse (substr str 14 2)
    let sec ← lib.tryParse (substr str 17 2)
    return fromTimeT (mktime ⟨year, mon, day, hour, min, sec⟩)

/-! ## Dates -/

/-- A date with a time of day in UTC, to the millisecond. -/
structure Timestamp where
  year : ℕ
  month : ℕ
  day : ℕ
  hour : ℕ
  min : ℕ
  sec : ℕ
  millis : ℕ
  year_lt : year < 10000
  month_pos : 0 < month
  month_le : month ≤ 12
  day_pos : 0 < day
  day_le : day ≤ monthLength year month
  hour_lt : hour < 24
  min_lt : min < 60
  sec_lt : sec < 60
  millis_lt : millis < 1000

namespace Timestamp

variable {lib : CosLibrary} {x y : Timestamp}

/-- Text: 2020-12-10T03:37:30.000Z. -/
def text (t : Timestamp) : Bytes :=
  padded 4 t.year ++ [ascii '-'] ++ padded 2 t.month ++ [ascii '-'] ++ padded 2 t.day ++
    [ascii 'T'] ++ padded 2 t.hour ++ [ascii ':'] ++ padded 2 t.min ++ [ascii ':'] ++
    padded 2 t.sec ++ [ascii '.'] ++ padded 3 t.millis ++ [ascii 'Z']

/-- Months since January of the year zero. -/
def monthIndex (t : Timestamp) : ℕ := 12 * t.year + (t.month - 1)

def timeOfDay (t : Timestamp) : ℕ := t.hour * 3600 + t.min * 60 + t.sec

/-- Whole seconds since the beginning of the year zero. -/
def seconds (t : Timestamp) : ℕ :=
  (daysBeforeMonth t.monthIndex + (t.day - 1)) * secondsPerDay + t.timeOfDay

def instant (t : Timestamp) : ℕ := t.seconds * 1000 + t.millis

/-- What the engine takes for the time of a date, in seconds. -/
def taken (t : Timestamp) : ℤ := mktime ⟨t.year, t.month, t.day, t.hour, t.min, t.sec⟩

def converted (t : Timestamp) : ℤ := fromTimeT t.taken

theorem tryParse_padded (hlib : lib.Documented) {width n : ℕ} (hpos : 0 < width)
    (hwidth : width ≤ 9) (hn : n < 10 ^ width) : lib.tryParse (padded width n) = some n := by
  have hvalue := decimalValue_padded width n hn
  have hlt : decimalValue (padded width n) < 2 ^ 32 := by
    rw [hvalue]
    calc n < 10 ^ width := hn
      _ ≤ 10 ^ 9 := Nat.pow_le_pow_right (by decide) hwidth
      _ < 2 ^ 32 := by decide
  have hne : padded width n ≠ [] := by
    apply List.ne_nil_of_length_pos
    rwa [length_padded]
  rw [hlib.tryParse _ hne (isDigit_of_mem_padded width n) hlt, hvalue]

/-- The fields are where the engine looks for them. -/
theorem substr_text (t : Timestamp) :
    substr t.text 0 4 = padded 4 t.year ∧ substr t.text 5 2 = padded 2 t.month ∧
      substr t.text 8 2 = padded 2 t.day ∧ substr t.text 11 2 = padded 2 t.hour ∧
      substr t.text 14 2 = padded 2 t.min ∧ substr t.text 17 2 = padded 2 t.sec := by
  unfold text substr
  refine ⟨?_, ?_, ?_, ?_, ?_, ?_⟩
  all_goals
    simp [List.drop_append, length_padded, List.drop_eq_nil_of_le]

/-- The engine reads every date. -/
theorem fromIso8601Timestamp_text (hlib : lib.Documented) (t : Timestamp) :
    fromIso8601Timestamp lib t.text = some t.converted := by
  have hlength : t.text.length = kExpectSize := by
    unfold text
    simp only [List.length_append, length_padded, List.length_singleton]
    decide
  have hdayLe : t.day ≤ 31 := t.day_le.trans (monthLength_bounds t.year t.month).2
  have hmonthLe := t.month_le
  have hhourLt := t.hour_lt
  have hminLt := t.min_lt
  have hsecLt := t.sec_lt
  obtain ⟨hyear, hmonth, hday, hhour, hmin, hsec⟩ := substr_text t
  have hparse : ∀ n, n < 10 ^ 2 → lib.tryParse (padded 2 n) = some n := by
    intro n hn
    exact tryParse_padded hlib (by decide) (by decide) hn
  have hparseYear : lib.tryParse (padded 4 t.year) = some t.year :=
    tryParse_padded hlib (by decide) (by decide) t.year_lt
  unfold fromIso8601Timestamp
  rw [if_neg (not_not_intro hlength), hyear, hmonth, hday, hhour, hmin, hsec, hparseYear,
    hparse t.month (by omega), hparse t.day (by omega), hparse t.hour (by omega),
    hparse t.min (by omega), hparse t.sec (by omega)]
  simp only [Option.bind_eq_bind, Option.bind_some, Option.pure_def]
  rw [converted, taken]

/-! ## Order -/

/-- In the calendar of the conversion, `x` comes at the same time as `y` or after it,
although it is in the month before: its day is beyond the end of the month that it is taken
for, which is as long as that of `y` is 1900 years later. -/
def Overtakes (x y : Timestamp) : Prop :=
  y.monthIndex = x.monthIndex + 1 ∧
    (monthLength (y.year + 1900) y.month + y.day) * secondsPerDay + y.timeOfDay
      ≤ x.day * secondsPerDay + x.timeOfDay

instance (x y : Timestamp) : Decidable (Overtakes x y) := inferInstanceAs (Decidable (_ ∧ _))

theorem timeOfDay_lt (t : Timestamp) : t.timeOfDay < secondsPerDay := by
  have hhour := t.hour_lt
  have hmin := t.min_lt
  have hsec := t.sec_lt
  unfold timeOfDay secondsPerDay
  omega

/-- The month that a date is taken for. -/
def takenIndex (t : Timestamp) : ℕ := t.monthIndex + 12 * 1900 + 1

theorem taken_eq (t : Timestamp) : t.taken =
    (daysBeforeMonth t.takenIndex + t.day : ℤ) * secondsPerDay + t.timeOfDay -
      (1 + daysBeforeEpoch) * secondsPerDay := by
  have hindex : 12 * (1900 + t.year) + t.month = t.takenIndex := by
    have hpos := t.month_pos
    unfold takenIndex monthIndex
    omega
  unfold taken mktime
  dsimp only
  rw [hindex]
  unfold timeOfDay
  ring

theorem lengthOfMonth_taken (h : y.monthIndex = x.monthIndex + 1) :
    daysBeforeMonth y.takenIndex
      = daysBeforeMonth x.takenIndex + monthLength (y.year + 1900) y.month := by
  have hindex : y.takenIndex = x.takenIndex + 1 := by
    unfold takenIndex
    omega
  have hpos := y.month_pos
  have hle := y.month_le
  have hyear : x.takenIndex / 12 = y.year + 1900 := by
    unfold takenIndex
    unfold monthIndex at h ⊢
    omega
  have hmonth : x.takenIndex % 12 + 1 = y.month := by
    unfold takenIndex
    unfold monthIndex at h ⊢
    omega
  rw [hindex, daysBeforeMonth_succ]
  unfold lengthOfMonth
  rw [hyear, hmonth]

theorem seconds_lt (h : x.instant + 1000 ≤ y.instant) : x.seconds < y.seconds := by
  have hx := x.millis_lt
  have hy := y.millis_lt
  unfold instant at h
  omega

theorem lengthOfMonth_monthIndex (t : Timestamp) :
    lengthOfMonth t.monthIndex = monthLength t.year t.month := by
  have hpos := t.month_pos
  have hle := t.month_le
  have hyear : t.monthIndex / 12 = t.year := by
    unfold monthIndex
    omega
  have hmonth : t.monthIndex % 12 + 1 = t.month := by
    unfold monthIndex
    omega
  rw [lengthOfMonth, hyear, hmonth]

theorem monthIndex_le (h : x.seconds < y.seconds) : x.monthIndex ≤ y.monthIndex := by
  by_contra hlt
  have hbegin := daysBeforeMonth_lt (not_le.mp hlt)
  rw [lengthOfMonth_monthIndex] at hbegin
  have hday := y.day_le
  have hpos := y.day_pos
  have htime := y.timeOfDay_lt
  unfold seconds secondsPerDay at h
  unfold secondsPerDay at htime
  omega

theorem taken_lt_iff (h : x.seconds < y.seconds) : x.taken < y.taken ↔ ¬Overtakes x y := by
  have hposX := x.day_pos
  have hposY := y.day_pos
  have hdayX : x.day ≤ 31 := x.day_le.trans (monthLength_bounds x.year x.month).2
  have htimeX := x.timeOfDay_lt
  have htimeY := y.timeOfDay_lt
  rw [taken_eq, taken_eq]
  unfold seconds at h
  unfold Overtakes
  rcases Nat.lt_trichotomy y.monthIndex (x.monthIndex + 1) with hsame | hnext | hlater
  · have hindex : y.monthIndex = x.monthIndex :=
      le_antisymm (Nat.lt_succ_iff.mp hsame) (monthIndex_le h)
    have htaken : y.takenIndex = x.takenIndex := by
      rw [takenIndex, takenIndex, hindex]
    rw [htaken]
    rw [hindex] at h ⊢
    unfold secondsPerDay at *
    omega
  · rw [lengthOfMonth_taken hnext]
    unfold secondsPerDay at *
    omega
  · -- A whole month of at least 28 days lies between the two.
    have hindex : x.takenIndex + 1 < y.takenIndex := by
      unfold takenIndex
      omega
    have hfirst := daysBeforeMonth_succ x.takenIndex
    have hsecond := daysBeforeMonth_lt hindex
    have hlong := (lengthOfMonth_bounds x.takenIndex).1
    have hlong' := (lengthOfMonth_bounds (x.takenIndex + 1)).1
    unfold secondsPerDay at *
    omega

/-! ## Turns of the clock -/

/-- How often the clock has turned over by the time that a date is taken for. -/
def turns (t : Timestamp) : ℤ := (t.taken * 10 ^ 9 + 2 ^ 63) / 2 ^ 64

theorem converted_eq (t : Timestamp) : t.converted = t.taken * 10 ^ 9 - t.turns * 2 ^ 64 := by
  unfold converted fromTimeT turns
  rw [Int.bmod_def]
  split_ifs <;> omega

/-- Two dates that the conversion brings out of order, the first being the earlier one:
across the end of a month, or because the clock turns over between the times that they are
taken for. -/
def OutOfOrder (x y : Timestamp) : Prop :=
  y.turns = x.turns ∧ Overtakes x y ∨
    y.turns ≠ x.turns ∧ (y.taken - x.taken) * 10 ^ 9 ≤ (y.turns - x.turns) * 2 ^ 64

instance (x y : Timestamp) : Decidable (OutOfOrder x y) := inferInstanceAs (Decidable (_ ∨ _))

/-- Of two dates at least a second apart, the conversion puts the earlier one first if and only
if it does not bring them out of order. -/
theorem converted_lt_iff (h : x.instant + 1000 ≤ y.instant) :
    x.converted < y.converted ↔ ¬OutOfOrder x y := by
  have htaken := taken_lt_iff (seconds_lt h)
  rw [converted_eq, converted_eq]
  unfold OutOfOrder
  by_cases hturns : y.turns = x.turns
  · simp only [hturns, true_and, ne_eq, not_true_eq_false, false_and, or_false]
    rw [← htaken]
    omega
  · simp only [hturns, false_and, ne_eq, not_false_eq_true, true_and, false_or]
    omega

end Timestamp

end Yadcc.Cache
