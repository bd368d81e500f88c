import Mathlib.Data.Nat.Notation
import Mathlib.Data.Int.Notation
import Mathlib.Algebra.Order.Group.Nat
import Mathlib.Order.Basic
import Mathlib.Tactic.Common

/-!
# Dates

Dates of the proleptic Gregorian calendar, years 1 to 9999. The ordinal of a date counts the
days from 0001-01-01 on; it orders the dates as their year, month and day do
(`ordinal_lt_iff`), and the next day has the next ordinal (`ordinal_next`).
-/

set_option autoImplicit false

namespace Mailman.Library

def isLeap (y : ℕ) : Bool := y % 4 = 0 ∧ (y % 100 ≠ 0 ∨ y % 400 = 0)

def daysInMonth (y m : ℕ) : ℕ :=
  if m = 2 then (if isLeap y then 29 else 28)
  else if m = 4 ∨ m = 6 ∨ m = 9 ∨ m = 11 then 30
  else 31

/-- The days of a year before its month `m`. -/
def daysBeforeMonth (y : ℕ) : ℕ → ℕ
  | 0 => 0
  | 1 => 0
  | m + 2 => daysBeforeMonth y (m + 1) + daysInMonth y (m + 1)

/-- The days before January 1st of a year. -/
def daysBeforeYear (y : ℕ) : ℕ := (y - 1) * 365 + (y - 1) / 4 + (y - 1) / 400 - (y - 1) / 100

def daysInYear (y : ℕ) : ℕ := if isLeap y then 366 else 365

structure Date where
  year : ℕ
  month : ℕ
  day : ℕ
  hyear : 1 ≤ year ∧ year ≤ 9999
  hmonth : 1 ≤ month ∧ month ≤ 12
  hday : 1 ≤ day ∧ day ≤ daysInMonth year month
  deriving DecidableEq

/-- The date of three numbers, if it is one. -/
def Date.ofFields (y m d : ℕ) : Option Date :=
  if h : (1 ≤ y ∧ y ≤ 9999) ∧ (1 ≤ m ∧ m ≤ 12) ∧ (1 ≤ d ∧ d ≤ daysInMonth y m) then
    some { year := y, month := m, day := d, hyear := h.1, hmonth := h.2.1, hday := h.2.2 }
  else none

def Date.ordinal (x : Date) : ℕ :=
  daysBeforeYear x.year + daysBeforeMonth x.year x.month + x.day

/-- The next day; none after 9999-12-31. -/
def Date.next (x : Date) : Option Date :=
  if x.day < daysInMonth x.year x.month then Date.ofFields x.year x.month (x.day + 1)
  else if x.month < 12 then Date.ofFields x.year (x.month + 1) 1
  else Date.ofFields (x.year + 1) 1 1

/-- The day before; none before 0001-01-01. -/
def Date.prev (x : Date) : Option Date :=
  if 1 < x.day then Date.ofFields x.year x.month (x.day - 1)
  else if 1 < x.month then
    Date.ofFields x.year (x.month - 1) (daysInMonth x.year (x.month - 1))
  else Date.ofFields (x.year - 1) 12 31

/-- So many days later, or earlier. -/
def Date.shift : ℤ → Date → Option Date
  | .ofNat n, x => n.repeat (·.bind Date.next) (some x)
  | .negSucc n, x => (n + 1).repeat (·.bind Date.prev) (some x)

/-! ## The ordinals -/

variable {x x' : Date} {y m m' d : ℕ}

/-- A date that is made of fields has them. -/
theorem Date.ofFields_eq_some (h : Date.ofFields y m d = some x) :
    x.year = y ∧ x.month = m ∧ x.day = d := by
  unfold Date.ofFields at h
  split_ifs at h
  cases h
  exact ⟨rfl, rfl, rfl⟩

/-- The fields of a date make it again. -/
theorem Date.ofFields_self (x : Date) : Date.ofFields x.year x.month x.day = some x :=
  dif_pos ⟨x.hyear, x.hmonth, x.hday⟩

/-- No month has more than 31 days. -/
theorem daysInMonth_le (y m : ℕ) : daysInMonth y m ≤ 31 := by
  unfold daysInMonth
  split_ifs <;> omega

/-- The leap years of the Gregorian calendar. -/
theorem isLeap_iff : isLeap y = true ↔ 4 ∣ y ∧ (¬100 ∣ y ∨ 400 ∣ y) := by
  simp [isLeap, Nat.dvd_iff_mod_eq_zero]

/-- A year's days come before the next one. -/
theorem daysBeforeYear_succ (hy : 1 ≤ y) :
    daysBeforeYear (y + 1) = daysBeforeYear y + daysInYear y := by
  obtain ⟨k, rfl⟩ : ∃ k, y = k + 1 := ⟨y - 1, by omega⟩
  have hle : k / 100 ≤ k / 4 := Nat.div_le_div_left (by omega) (by omega)
  have h100 : 100 ∣ k + 1 → 4 ∣ k + 1 := fun h => Nat.dvd_trans (by decide) h
  have h400 : 400 ∣ k + 1 → 100 ∣ k + 1 := fun h => Nat.dvd_trans (by decide) h
  unfold daysBeforeYear daysInYear
  simp only [Nat.add_sub_cancel, Nat.succ_div, isLeap_iff]
  by_cases d4 : 4 ∣ k + 1
  · by_cases d100 : 100 ∣ k + 1
    · by_cases d400 : 400 ∣ k + 1
      · simp only [d4, d100, d400, if_true, not_true, false_or, and_true]
        omega
      · simp only [d4, d100, d400, if_true, if_false, not_true, or_false, and_false]
        omega
    · have d400 : ¬400 ∣ k + 1 := fun h => d100 (h400 h)
      simp only [d4, d100, d400, if_true, if_false, not_false_iff, true_or, and_true]
      omega
  · have d100 : ¬100 ∣ k + 1 := fun h => d4 (h100 h)
    have d400 : ¬400 ∣ k + 1 := fun h => d100 (h400 h)
    simp only [d4, d100, d400, if_false, false_and]
    omega

/-- A month's days come before the next one. -/
theorem daysBeforeMonth_succ (hm : 1 ≤ m) :
    daysBeforeMonth y (m + 1) = daysBeforeMonth y m + daysInMonth y m := by
  obtain ⟨k, rfl⟩ : ∃ k, m = k + 1 := ⟨m - 1, by omega⟩
  rfl

/-- The months make up the year. -/
theorem daysBeforeMonth_thirteen : daysBeforeMonth y 13 = daysInYear y := by
  cases hleap : isLeap y <;> simp [daysBeforeMonth, daysInMonth, daysInYear, hleap]

/-- A month is over before any later one begins. -/
theorem daysBeforeMonth_le (hm : 1 ≤ m) (h : m < m') :
    daysBeforeMonth y m + daysInMonth y m ≤ daysBeforeMonth y m' := by
  induction h with
  | refl => rw [daysBeforeMonth_succ hm]
  | @step n hn ih =>
    have hle : m + 1 ≤ n := hn
    have hone : 1 ≤ n := by omega
    rw [daysBeforeMonth_succ hone]
    omega

/-- A year is over before any later one begins. -/
theorem daysBeforeYear_le {y y' : ℕ} (hy : 1 ≤ y) (h : y < y') :
    daysBeforeYear y + daysInYear y ≤ daysBeforeYear y' := by
  induction h with
  | refl => rw [daysBeforeYear_succ hy]
  | @step n hn ih =>
    have hle : y + 1 ≤ n := hn
    have hone : 1 ≤ n := by omega
    rw [daysBeforeYear_succ hone]
    omega

/-- The days of a date within its year. -/
theorem Date.dayOfYear_le (x : Date) :
    daysBeforeMonth x.year x.month + x.day ≤ daysInYear x.year := by
  have hle := daysBeforeMonth_le (y := x.year) x.hmonth.1 (Nat.lt_succ_of_le x.hmonth.2)
  rw [daysBeforeMonth_thirteen] at hle
  have hday := x.hday.2
  omega

/-- An earlier year has smaller ordinals. -/
theorem Date.ordinal_lt_of_year (h : x.year < x'.year) : x.ordinal < x'.ordinal := by
  have hyear := daysBeforeYear_le x.hyear.1 h
  have hdays := x.dayOfYear_le
  have hpos := x'.hday.1
  unfold Date.ordinal
  omega

/-- In one year an earlier month has smaller ordinals. -/
theorem Date.ordinal_lt_of_month (hy : x.year = x'.year) (h : x.month < x'.month) :
    x.ordinal < x'.ordinal := by
  have hmonth := daysBeforeMonth_le (y := x.year) x.hmonth.1 h
  have hday := x.hday.2
  have hpos := x'.hday.1
  unfold Date.ordinal
  rw [← hy]
  omega

/-- Dates are in the order of their year, month and day. -/
theorem Date.ordinal_lt_iff : x.ordinal < x'.ordinal ↔
    x.year < x'.year ∨ x.year = x'.year ∧
      (x.month < x'.month ∨ x.month = x'.month ∧ x.day < x'.day) := by
  rcases Nat.lt_trichotomy x.year x'.year with hy | hy | hy
  · have hlt := Date.ordinal_lt_of_year hy
    omega
  · rcases Nat.lt_trichotomy x.month x'.month with hm | hm | hm
    · have hlt := Date.ordinal_lt_of_month hy hm
      omega
    · have hsame : x.ordinal < x'.ordinal ↔ x.day < x'.day := by
        unfold Date.ordinal
        rw [hy, hm]
        omega
      omega
    · have hlt := Date.ordinal_lt_of_month hy.symm hm
      omega
  · have hlt := Date.ordinal_lt_of_year hy
    omega

/-- The next day has the next ordinal. -/
theorem Date.ordinal_next (h : x.next = some x') : x'.ordinal = x.ordinal + 1 := by
  have hday := x.hday.2
  unfold Date.next at h
  split_ifs at h with hd hm
  · obtain ⟨hy', hm', hd'⟩ := Date.ofFields_eq_some h
    unfold Date.ordinal
    rw [hy', hm', hd']
    omega
  · obtain ⟨hy', hm', hd'⟩ := Date.ofFields_eq_some h
    unfold Date.ordinal
    rw [hy', hm', hd', daysBeforeMonth_succ x.hmonth.1]
    omega
  · obtain ⟨hy', hm', hd'⟩ := Date.ofFields_eq_some h
    have hlast : x.month = 12 := by
      have hle := x.hmonth.2
      omega
    have hyear := daysBeforeMonth_succ (y := x.year) (m := 12) (by omega)
    rw [daysBeforeMonth_thirteen] at hyear
    unfold Date.ordinal
    rw [hy', hm', hd', daysBeforeYear_succ x.hyear.1, hlast]
    rw [hlast] at hd hday
    simp only [daysBeforeMonth] at hyear ⊢
    omega

/-- The day before has the ordinal before. -/
theorem Date.ordinal_prev (h : x.prev = some x') : x'.ordinal + 1 = x.ordinal := by
  have hday := x.hday.1
  unfold Date.prev at h
  split_ifs at h with hd hm
  · obtain ⟨hy', hm', hd'⟩ := Date.ofFields_eq_some h
    unfold Date.ordinal
    rw [hy', hm', hd']
    omega
  · obtain ⟨hy', hm', hd'⟩ := Date.ofFields_eq_some h
    have hmonth := daysBeforeMonth_succ (y := x.year) (m := x.month - 1) (by omega)
    rw [Nat.sub_add_cancel (by omega)] at hmonth
    unfold Date.ordinal
    rw [hy', hm', hd', hmonth]
    omega
  · obtain ⟨hy', hm', hd'⟩ := Date.ofFields_eq_some h
    have hfirst : x.month = 1 := by
      have hle := x.hmonth.1
      omega
    have hbefore : 1 ≤ x.year - 1 := by
      have hle := x'.hyear.1
      omega
    have hyears := daysBeforeYear_succ hbefore
    rw [Nat.sub_add_cancel x.hyear.1] at hyears
    have hyear := daysBeforeMonth_succ (y := x.year - 1) (m := 12) (by omega)
    rw [daysBeforeMonth_thirteen] at hyear
    have hdec : daysInMonth (x.year - 1) 12 = 31 := by simp [daysInMonth]
    unfold Date.ordinal
    rw [hy', hm', hd', hfirst, hyears]
    simp only [daysBeforeMonth] at hyear ⊢
    omega

end Mailman.Library
