import Mathlib.Algebra.GroupWithZero.Nat
import Mathlib.Data.List.Basic
import Mathlib.Tactic.SplitIfs

namespace HttpCpp
namespace Calendar

/-- The block a position falls into when blocks of these lengths follow one another, and the
place within the block. -/
def place : List Nat → Nat → Nat × Nat
  | [], n => (0, n)
  | length :: lengths, n =>
    if n < length then (0, n)
    else ((place lengths (n - length)).1 + 1, (place lengths (n - length)).2)

theorem place_spec (lengths : List Nat) (n : Nat) (h : n < lengths.sum) :
    (place lengths n).1 < lengths.length ∧
      (place lengths n).2 < lengths.getD (place lengths n).1 0 ∧
      (lengths.take (place lengths n).1).sum + (place lengths n).2 = n := by
  induction lengths generalizing n with
  | nil => simp at h
  | cons length lengths ih =>
    rw [List.sum_cons] at h
    by_cases hn : n < length
    · rw [place, if_pos hn]
      refine ⟨by simp, ?_, by simp⟩
      simpa using hn
    · obtain ⟨hindex, hplace, hsum⟩ := ih (n - length) (by omega)
      rw [place, if_neg hn]
      refine ⟨by simpa using hindex, by simpa using hplace, ?_⟩
      rw [List.take_succ_cons, List.sum_cons]
      omega

/-- A leap year of the Gregorian calendar. -/
def IsLeap (year : Int) : Prop := year % 4 = 0 ∧ (year % 100 ≠ 0 ∨ year % 400 = 0)

instance (year : Int) : Decidable (IsLeap year) := inferInstanceAs (Decidable (_ ∧ (_ ∨ _)))

def monthLengths (year : Int) : List Nat :=
  [31, if IsLeap year then 29 else 28, 31, 30, 31, 30, 31, 31, 30, 31, 30, 31]

/-- The days from the first of January 1970 to the first of January of a year. -/
def yearStart (year : Int) : Int :=
  365 * (year - 1970) + ((year - 1) / 4 - (year - 1) / 100 + (year - 1) / 400 - 477)

/-- The months of a year are its days. -/
theorem yearStart_succ (year : Int) :
    yearStart (year + 1) = yearStart year + (monthLengths year).sum := by
  have hsum : ((monthLengths year).sum : Int) = if IsLeap year then 366 else 365 := by
    simp only [monthLengths]
    split_ifs <;> rfl
  rw [hsum]
  simp only [yearStart]
  split_ifs with hleap
  · obtain ⟨hfour, hcentury⟩ := hleap
    omega
  · simp only [IsLeap, not_and_or, not_or, not_not] at hleap
    omega

/-- The year a day lies in: the mean length of a year tells it up to one. -/
def yearOf (day : Int) : Int :=
  let guess := 400 * day / 146097 + 1970
  if day < yearStart guess then guess - 1
  else if day < yearStart (guess + 1) then guess else guess + 1

theorem yearOf_spec (day : Int) :
    yearStart (yearOf day) ≤ day ∧ day < yearStart (yearOf day + 1) := by
  simp only [yearOf]
  generalize hguess : 400 * day / 146097 + 1970 = guess
  have hlow : yearStart (guess - 1) ≤ day := by
    simp only [yearStart]
    omega
  have hhigh : day < yearStart (guess + 2) := by
    simp only [yearStart]
    omega
  split_ifs with hbefore hwithin
  · refine ⟨hlow, ?_⟩
    rwa [Int.sub_add_cancel]
  · exact ⟨Int.not_lt.mp hbefore, hwithin⟩
  · refine ⟨Int.not_lt.mp hwithin, ?_⟩
    rwa [Int.add_assoc]

/-- A day of the Gregorian calendar; the months are counted from zero. -/
structure Date where
  year : Int
  month : Nat
  day : Nat
  month_lt : month < 12
  day_pos : 0 < day
  day_le : day ≤ (monthLengths year).getD month 0

/-- The days from the first of January 1970. -/
def Date.number (date : Date) : Int :=
  yearStart date.year + ((monthLengths date.year).take date.month).sum + (date.day - 1)

/-- The day of its year a day is, from zero. -/
def dayOfYear (n : Int) : Nat := (n - yearStart (yearOf n)).toNat

/-- The month a day lies in and its day of the month, both from zero. -/
def monthOf (n : Int) : Nat × Nat := place (monthLengths (yearOf n)) (dayOfYear n)

theorem monthOf_spec (n : Int) :
    (monthOf n).1 < 12 ∧ (monthOf n).2 < (monthLengths (yearOf n)).getD (monthOf n).1 0 ∧
      ((monthLengths (yearOf n)).take (monthOf n).1).sum + (monthOf n).2 = dayOfYear n := by
  obtain ⟨hlow, hhigh⟩ := yearOf_spec n
  rw [yearStart_succ] at hhigh
  apply place_spec
  rw [dayOfYear]
  omega

def Date.ofNumber (n : Int) : Date where
  year := yearOf n
  month := (monthOf n).1
  day := (monthOf n).2 + 1
  month_lt := (monthOf_spec n).1
  day_pos := Nat.succ_pos _
  day_le := (monthOf_spec n).2.1

theorem Date.number_ofNumber (n : Int) : (Date.ofNumber n).number = n := by
  obtain ⟨-, -, hsum⟩ := monthOf_spec n
  obtain ⟨hlow, -⟩ := yearOf_spec n
  rw [dayOfYear] at hsum
  simp only [Date.number, Date.ofNumber]
  omega

/-- The day of the week, from Sunday; the first of January 1970 was a Thursday. -/
def weekday (n : Int) : Nat := ((n + 4) % 7).toNat

theorem weekday_lt (n : Int) : weekday n < 7 := by
  simp only [weekday]
  omega

theorem Date.day_le_31 (date : Date) : date.day ≤ 31 := by
  obtain ⟨year, month, day, hmonth, hpos, hle⟩ := date
  have hlengths : ∀ length ∈ monthLengths year, length ≤ 31 := by
    simp only [monthLengths, List.forall_mem_cons]
    split_ifs <;> simp
  apply Nat.le_trans hle
  have hlt : month < (monthLengths year).length := hmonth
  rw [List.getD_eq_getElem?_getD, List.getElem?_eq_getElem hlt, Option.getD_some]
  exact hlengths _ (List.getElem_mem hlt)

end Calendar
end HttpCpp
