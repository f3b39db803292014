/-
# The Gregorian calendar

Months are counted from January of the year zero on, so that the month after a month is its
successor, at the end of a year too. The number of days before a month has a closed form,
which is characterised by its step from a month to the next. A text with fixed places for
year, month, day and time is read back by position.
-/

import Yadcc.Lib.Text

namespace Yadcc.Lib.Calendar

/-! ## Months -/

def isLeap (year : ℕ) : Bool :=
  decide (year % 4 = 0 ∧ (year % 100 ≠ 0 ∨ year % 400 = 0))

/-- The days of a month of a year, January being the first. -/
def monthLength (year month : ℕ) : ℕ :=
  if month = 2 then if isLeap year then 29 else 28
  else if month = 4 ∨ month = 6 ∨ month = 9 ∨ month = 11 then 30
  else 31

def daysBeforeYear (year : ℕ) : ℕ :=
  365 * year + (year + 3) / 4 - (year + 99) / 100 + (year + 399) / 400

def lengthOfMonth (index : ℕ) : ℕ := monthLength (index / 12) (index % 12 + 1)

def daysBeforeMonth (index : ℕ) : ℕ :=
  daysBeforeYear (index / 12) +
    ((List.range (index % 12)).map fun m => monthLength (index / 12) (m + 1)).sum

theorem monthLength_bounds (year month : ℕ) :
    28 ≤ monthLength year month ∧ monthLength year month ≤ 31 := by
  unfold monthLength
  split_ifs <;> omega

theorem lengthOfMonth_bounds (index : ℕ) : 28 ≤ lengthOfMonth index ∧ lengthOfMonth index ≤ 31 :=
  monthLength_bounds _ _

theorem daysBeforeYear_succ (year : ℕ) :
    daysBeforeYear (year + 1) = daysBeforeYear year + if isLeap year then 366 else 365 := by
  have h4 : (year + 1 + 3) / 4 = (year + 3) / 4 + if year % 4 = 0 then 1 else 0 := by
    split_ifs <;> omega
  have h100 : (year + 1 + 99) / 100 = (year + 99) / 100 + if year % 100 = 0 then 1 else 0 := by
    split_ifs <;> omega
  have h400 : (year + 1 + 399) / 400 = (year + 399) / 400 + if year % 400 = 0 then 1 else 0 := by
    split_ifs <;> omega
  have hle : (year + 99) / 100 ≤ 365 * year + (year + 3) / 4 := by omega
  have hcentury : year % 100 = 0 → year % 4 = 0 := by omega
  have hgregorian : year % 400 = 0 → year % 100 = 0 := by omega
  unfold daysBeforeYear isLeap
  rw [h4, h100, h400]
  generalize (year + 3) / 4 = fours at *
  generalize (year + 99) / 100 = hundreds at *
  generalize (year + 399) / 400 = fourHundreds at *
  by_cases hfour : year % 4 = 0
  · by_cases hhundred : year % 100 = 0
    · by_cases hfourHundred : year % 400 = 0
      · simp only [hfour, hhundred, hfourHundred, if_true, ne_eq, not_true_eq_false, false_or,
          and_self, decide_true]
        omega
      · simp only [hfour, hhundred, hfourHundred, if_true, if_false, ne_eq, not_true_eq_false,
          or_self, and_false, decide_false, Bool.false_eq_true]
        omega
    · have hfourHundred : ¬year % 400 = 0 := fun h => hhundred (hgregorian h)
      simp only [hfour, hhundred, hfourHundred, if_true, if_false, ne_eq, not_false_eq_true,
        true_or, and_self, decide_true]
      omega
  · have hhundred : ¬year % 100 = 0 := fun h => hfour (hcentury h)
    have hfourHundred : ¬year % 400 = 0 := fun h => hhundred (hgregorian h)
    simp only [hfour, hhundred, hfourHundred, if_false, false_and, decide_false,
      Bool.false_eq_true]
    omega

theorem sum_monthLength (year : ℕ) :
    ((List.range 12).map fun m => monthLength year (m + 1)).sum
      = if isLeap year then 366 else 365 := by
  cases h : isLeap year with
  | false => simp [List.range_succ, monthLength, h]
  | true => simp [List.range_succ, monthLength, h]

/-- After a month come the days before the next one. -/
theorem daysBeforeMonth_succ (index : ℕ) :
    daysBeforeMonth (index + 1) = daysBeforeMonth index + lengthOfMonth index := by
  unfold daysBeforeMonth lengthOfMonth
  by_cases h : index % 12 = 11
  · have hyear : (index + 1) / 12 = index / 12 + 1 := by omega
    have hmonth : (index + 1) % 12 = 0 := by omega
    have hsum := sum_monthLength (index / 12)
    rw [List.range_succ, List.map_append, List.sum_append] at hsum
    rw [hyear, hmonth, h, daysBeforeYear_succ]
    simp only [List.range_zero, List.map_nil, List.sum_nil, List.map_cons, List.sum_cons] at hsum ⊢
    omega
  · have hyear : (index + 1) / 12 = index / 12 := by omega
    have hmonth : (index + 1) % 12 = index % 12 + 1 := by omega
    rw [hyear, hmonth, List.range_succ, List.map_append, List.sum_append]
    simp only [List.map_cons, List.map_nil, List.sum_cons, List.sum_nil]
    omega

theorem daysBeforeMonth_mono : Monotone daysBeforeMonth := by
  apply monotone_nat_of_le_succ
  intro index
  rw [daysBeforeMonth_succ]
  exact Nat.le_add_right _ _

/-- A later month begins after the end of the earlier one. -/
theorem daysBeforeMonth_lt {index index' : ℕ} (h : index < index') :
    daysBeforeMonth index + lengthOfMonth index ≤ daysBeforeMonth index' := by
  rw [← daysBeforeMonth_succ]
  exact daysBeforeMonth_mono h

/-! ## Digits in fixed places -/

open Shell (ascii)

/-- A number in a fixed number of digits. -/
def padded : ℕ → ℕ → Bytes
  | 0, _ => []
  | width + 1, n => padded width (n / 10) ++ [ascii (Nat.digitChar (n % 10))]

theorem length_padded (width : ℕ) : ∀ n, (padded width n).length = width := by
  induction width with
  | zero =>
      intro n
      rfl
  | succ width ih =>
      intro n
      rw [padded, List.length_append, ih]
      rfl

theorem isDigit_of_mem_padded (width : ℕ) : ∀ n, ∀ b ∈ padded width n, isDigit b = true := by
  induction width with
  | zero =>
      intro n b hb
      cases hb
  | succ width ih =>
      intro n b hb
      rw [padded, List.mem_append, List.mem_singleton] at hb
      rcases hb with hb | rfl
      · exact ih (n / 10) b hb
      · have hlt := Nat.mod_lt n (by omega : 0 < 10)
        rw [isDigit, toNat_ascii_digitChar hlt]
        simp only [Bool.and_eq_true, decide_eq_true_eq]
        omega

theorem decimalValue_padded (width : ℕ) :
    ∀ n, n < 10 ^ width → decimalValue (padded width n) = n := by
  induction width with
  | zero =>
      intro n h
      rw [pow_zero] at h
      have hn : n = 0 := by omega
      rw [hn]
      rfl
  | succ width ih =>
      intro n h
      have hlast := toNat_ascii_digitChar (Nat.mod_lt n (by omega : 0 < 10))
      have hrest := ih (n / 10) (by rw [pow_succ] at h; omega)
      rw [decimalValue] at hrest
      rw [padded, decimalValue, List.foldl_append, hrest, List.foldl_cons, List.foldl_nil, hlast]
      omega

end Yadcc.Lib.Calendar
