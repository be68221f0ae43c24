import EdgeTts.Lib.Calendar
import Mathlib.Algebra.BigOperators.Intervals
import Mathlib.Algebra.Order.BigOperators.Group.Finset
import Mathlib.Data.List.Lex

/-!
# Counting the seconds of the calendar

The place of a moment in the calendar, counted out: all the days of the years and the months
that are over, and then the time of day (`Civil.seconds`).  The count is strictly increasing
(`Civil.seconds_lt`), so a moment is determined by it.
-/
namespace Calendar

open Finset (Ico range)

/-- The length of a month, counted from 0. -/
def monthLength (leap : Bool) (month : Nat) : Nat := (monthLengths leap).getD month 0

/-- The days of the years from `first` on that are over when `year` begins. -/
def daysBeforeYear (first year : Nat) : Nat := ∑ y ∈ Ico first year, yearLength y

/-- The days of the months of a year that are over when `month` begins. -/
def daysBeforeMonth (leap : Bool) (month : Nat) : Nat := ∑ m ∈ range month, monthLength leap m

/-- A date of the calendar with a time of day; the month counts from 0. -/
@[ext] structure Civil where
  year : Nat
  month : Nat
  day : Nat
  hour : Nat
  min : Nat
  sec : Nat
  month_lt : month < 12
  day_pos : 0 < day
  day_le : day ≤ monthLength (isLeap year) month
  hour_lt : hour < 24
  min_lt : min < 60
  sec_lt : sec < 60

namespace Civil

/-- The days from the beginning of the year `first` to the date. -/
def dayNumber (first : Nat) (t : Civil) : Nat :=
  daysBeforeYear first t.year + daysBeforeMonth (isLeap t.year) t.month + (t.day - 1)

/-- The seconds from the beginning of the year `first` to the moment. -/
def seconds (first : Nat) (t : Civil) : Nat :=
  t.dayNumber first * 86400 + t.hour * 3600 + t.min * 60 + t.sec

/-- The fields, the largest unit first. -/
def fields (t : Civil) : List Nat := [t.year, t.month, t.day, t.hour, t.min, t.sec]

/-- The moment is earlier. -/
def Before (t t' : Civil) : Prop := List.Lex (· < ·) t.fields t'.fields

end Civil

theorem daysBeforeYear_succ {first year : Nat} (h : first ≤ year) :
    daysBeforeYear first (year + 1) = daysBeforeYear first year + yearLength year :=
  Finset.sum_Ico_succ_top h yearLength

theorem daysBeforeMonth_succ (leap : Bool) (month : Nat) :
    daysBeforeMonth leap (month + 1) = daysBeforeMonth leap month + monthLength leap month :=
  Finset.sum_range_succ (monthLength leap) month

theorem daysBeforeYear_mono {first year year' : Nat} (h : year ≤ year') :
    daysBeforeYear first year ≤ daysBeforeYear first year' :=
  Finset.sum_le_sum_of_subset (Finset.Ico_subset_Ico_right h)

theorem daysBeforeMonth_mono {leap : Bool} {month month' : Nat} (h : month ≤ month') :
    daysBeforeMonth leap month ≤ daysBeforeMonth leap month' :=
  Finset.sum_le_sum_of_subset (Finset.range_subset_range.mpr h)

/-- The twelve months are the whole year. -/
theorem daysBeforeMonth_twelve (year : Nat) :
    daysBeforeMonth (isLeap year) 12 = yearLength year := by
  rw [yearLength]
  cases isLeap year <;> rfl

/-- The leap years from the year 0 on that are over when `year` begins. -/
def leapsBefore (year : Nat) : Nat := (year + 3) / 4 - (year + 99) / 100 + (year + 399) / 400

theorem isLeap_iff {year : Nat} :
    isLeap year = true ↔ year % 4 = 0 ∧ (year % 100 ≠ 0 ∨ year % 400 = 0) := by
  simp only [isLeap, Bool.and_eq_true, Bool.or_eq_true, beq_iff_eq, bne_iff_ne]

/-- One year more reaches a multiple of `4` or not, of `100` or not and of `400` or not. -/
theorem leapsBefore_succ (year : Nat) :
    leapsBefore (year + 1) = leapsBefore year + if isLeap year then 1 else 0 := by
  have h4 : (year + 1 + 3) / 4 = (year + 3) / 4 + if year % 4 = 0 then 1 else 0 := by
    split <;> omega
  have h100 : (year + 1 + 99) / 100 = (year + 99) / 100 + if year % 100 = 0 then 1 else 0 := by
    split <;> omega
  have h400 : (year + 1 + 399) / 400 = (year + 399) / 400 + if year % 400 = 0 then 1 else 0 := by
    split <;> omega
  have hle : (year + 99) / 100 ≤ (year + 3) / 4 := by omega
  rw [leapsBefore, leapsBefore, h4, h100, h400]
  clear h4 h100 h400
  generalize (year + 3) / 4 = fours at hle
  generalize (year + 99) / 100 = hundreds at hle
  generalize (year + 399) / 400 = cycles
  by_cases hhundred : year % 100 = 0
  · have hfour : year % 4 = 0 := by omega
    rw [if_pos hfour, if_pos hhundred]
    by_cases hcycle : year % 400 = 0
    · rw [if_pos hcycle, if_pos (isLeap_iff.mpr ⟨hfour, Or.inr hcycle⟩)]
      omega
    · rw [if_neg hcycle, if_neg fun h => (isLeap_iff.mp h).2.elim (· hhundred) hcycle]
      omega
  · have hcycle : ¬ year % 400 = 0 := by omega
    rw [if_neg hhundred, if_neg hcycle]
    by_cases hfour : year % 4 = 0
    · rw [if_pos hfour, if_pos (isLeap_iff.mpr ⟨hfour, Or.inl hhundred⟩)]
      omega
    · rw [if_neg hfour, if_neg fun h => hfour (isLeap_iff.mp h).1]
      rfl

theorem yearLength_eq (year : Nat) : yearLength year = 365 + if isLeap year then 1 else 0 := by
  rw [yearLength]
  split <;> rfl

/-- **The years before a year in closed form**, by the rule of 4, 100 and 400 years. -/
theorem daysBeforeYear_eq {first year : Nat} (h : first ≤ year) :
    daysBeforeYear first year + (365 * first + leapsBefore first) =
      365 * year + leapsBefore year := by
  induction year, h using Nat.le_induction with
  | base => rw [daysBeforeYear, Finset.Ico_self, Finset.sum_empty, Nat.zero_add]
  | succ year h ih =>
      rw [daysBeforeYear_succ h, leapsBefore_succ, yearLength_eq]
      omega

namespace Civil

/-- The days of the year that are over. -/
theorem dayOfYear_lt (t : Civil) :
    daysBeforeMonth (isLeap t.year) t.month + (t.day - 1) < yearLength t.year := by
  have hmonth := daysBeforeMonth_succ (isLeap t.year) t.month
  have hyear : daysBeforeMonth (isLeap t.year) (t.month + 1) ≤ yearLength t.year := by
    rw [← daysBeforeMonth_twelve]
    exact daysBeforeMonth_mono t.month_lt
  have := t.day_pos
  have := t.day_le
  omega

theorem dayNumber_lt_of_year {first : Nat} {t t' : Civil} (hfirst : first ≤ t.year)
    (h : t.year < t'.year) : t.dayNumber first < t'.dayNumber first := by
  have hyear := t.dayOfYear_lt
  have hmono : daysBeforeYear first (t.year + 1) ≤ daysBeforeYear first t'.year :=
    daysBeforeYear_mono h
  rw [daysBeforeYear_succ hfirst] at hmono
  rw [dayNumber, dayNumber]
  omega

theorem dayNumber_lt_of_month {first : Nat} {t t' : Civil} (hyear : t.year = t'.year)
    (h : t.month < t'.month) : t.dayNumber first < t'.dayNumber first := by
  have hmono : daysBeforeMonth (isLeap t'.year) (t.month + 1) ≤
      daysBeforeMonth (isLeap t'.year) t'.month := daysBeforeMonth_mono h
  have hday := t.day_le
  have := t.day_pos
  rw [hyear] at hday
  rw [daysBeforeMonth_succ] at hmono
  rw [dayNumber, dayNumber, hyear]
  omega

theorem dayNumber_lt_of_day {first : Nat} {t t' : Civil} (hyear : t.year = t'.year)
    (hmonth : t.month = t'.month) (h : t.day < t'.day) :
    t.dayNumber first < t'.dayNumber first := by
  have := t.day_pos
  rw [dayNumber, dayNumber, hyear, hmonth]
  omega

theorem seconds_lt_of_dayNumber {first : Nat} {t t' : Civil}
    (h : t.dayNumber first < t'.dayNumber first) : t.seconds first < t'.seconds first := by
  have := t.hour_lt
  have := t.min_lt
  have := t.sec_lt
  rw [seconds, seconds]
  omega

/-- **The count is strictly increasing.** -/
theorem seconds_lt {first : Nat} {t t' : Civil} (hfirst : first ≤ t.year) (h : t.Before t') :
    t.seconds first < t'.seconds first := by
  simp only [Before, fields, List.cons_lex_cons_iff, List.not_lex_nil, and_false, or_false] at h
  rcases h with h | ⟨hyear, h | ⟨hmonth, h | ⟨hday, h⟩⟩⟩
  · exact seconds_lt_of_dayNumber (dayNumber_lt_of_year hfirst h)
  · exact seconds_lt_of_dayNumber (dayNumber_lt_of_month hyear h)
  · exact seconds_lt_of_dayNumber (dayNumber_lt_of_day hyear hmonth h)
  · have := t.min_lt
    have := t.sec_lt
    rw [seconds, seconds, dayNumber, dayNumber, hyear, hmonth, hday]
    omega

/-- **The count determines the moment.** -/
theorem eq_of_seconds_eq {first : Nat} {t t' : Civil} (hfirst : first ≤ t.year)
    (hfirst' : first ≤ t'.year) (h : t.seconds first = t'.seconds first) : t = t' := by
  have hfields : t.fields = t'.fields := by
    apply Std.Trichotomous.trichotomous (r := List.Lex (· < ·))
    · intro hbefore
      exact absurd h (seconds_lt hfirst hbefore).ne
    · intro hbefore
      exact absurd h.symm (seconds_lt hfirst' hbefore).ne
  simp only [fields, List.cons.injEq, and_true] at hfields
  obtain ⟨hyear, hmonth, hday, hhour, hmin, hsec⟩ := hfields
  exact Civil.ext hyear hmonth hday hhour hmin hsec

end Civil
end Calendar
