import Mathlib.Algebra.Order.Ring.Int
import Mathlib.Data.List.Basic

/-!
# The Gregorian calendar

Broken-down UTC time from a count of seconds since 1970-01-01, in the proleptic
Gregorian calendar.  The calendar repeats every 400 years, so the year and then
the month are found by walking along their lengths (`locate`).
-/
namespace Calendar

/-- The step of a staircase of the given widths in which `d` falls, and how far into it. -/
def locate : List Nat → Nat → Nat × Nat
  | [], d => (0, d)
  | n :: ns, d =>
      if d < n then (0, d)
      else
        let p := locate ns (d - n)
        (p.1 + 1, p.2)

theorem locate_spec : ∀ {ns : List Nat} {d : Nat}, d < ns.sum →
    ∃ h : (locate ns d).1 < ns.length, (locate ns d).2 < ns[(locate ns d).1]
  | [], d, h => by simp at h
  | n :: ns, d, h => by
      rw [locate]
      split
      · rename_i hd
        exact ⟨by simp, hd⟩
      · rename_i hd
        rw [List.sum_cons] at h
        obtain ⟨hi, hr⟩ := locate_spec (by omega : d - n < ns.sum)
        exact ⟨by simpa using hi, by simpa using hr⟩

def isLeap (year : Nat) : Bool := year % 4 == 0 && (year % 100 != 0 || year % 400 == 0)

def yearLength (year : Nat) : Nat := if isLeap year then 366 else 365

def monthLengths (leap : Bool) : List Nat :=
  [31, if leap then 29 else 28, 31, 30, 31, 30, 31, 31, 30, 31, 30, 31]

/-- The years of a 400-year cycle that starts with a leap century. -/
def cycle : List Nat := (List.range 400).map yearLength

theorem monthLengths_sum (year : Nat) : (monthLengths (isLeap year)).sum = yearLength year := by
  rw [yearLength]
  cases isLeap year <;> rfl

/-- Days from 0000-01-01 to 1970-01-01. -/
def epochDays : Int := 719528

/-- `struct tm`, as far as it is used; `mon` counts from 0, `wday` from Sunday. -/
structure Tm where
  sec : Nat
  min : Nat
  hour : Nat
  mday : Nat
  mon : Fin 12
  year : Int
  wday : Fin 7
  sec_lt : sec < 60
  min_lt : min < 60
  hour_lt : hour < 24
  mday_pos : 0 < mday
  mday_le : mday ≤ 31

/-- The month and the day of the month, from the day of the year. -/
def monthOf (leap : Bool) (day : Nat) : Nat × Nat := locate (monthLengths leap) day

theorem monthOf_spec {leap : Bool} {day : Nat} (h : day < (monthLengths leap).sum) :
    (monthOf leap day).1 < 12 ∧ (monthOf leap day).2 < 31 := by
  obtain ⟨hi, hr⟩ := locate_spec h
  have hle : ∀ n ∈ monthLengths leap, n ≤ 31 := by cases leap <;> decide
  exact ⟨hi,
    Nat.lt_of_lt_of_le hr (hle _ (List.getElem_mem hi))⟩

/-- The year of its cycle and the day of that year, from the day of the cycle. -/
def yearOf (day : Nat) : Nat × Nat := locate cycle day

set_option maxRecDepth 10000 in
theorem cycle_sum : cycle.sum = 146097 := by decide

theorem yearOf_spec {day : Nat} (h : day < 146097) :
    (yearOf day).2 < yearLength (yearOf day).1 := by
  obtain ⟨hi, hr⟩ := locate_spec (cycle_sum ▸ h : day < cycle.sum)
  rwa [show cycle[(locate cycle day).1] = yearLength (locate cycle day).1 by simp [cycle]] at hr

/-- `gmtime`. -/
def gmtime (t : Int) : Tm :=
  let days := t / 86400
  let secs := (t % 86400).toNat
  let cycleDay := ((days + epochDays) % 146097).toNat
  let year := yearOf cycleDay
  let month := monthOf (isLeap year.1) year.2
  have hsecs : secs < 86400 := by omega
  have hmonth : month.1 < 12 ∧ month.2 < 31 :=
    monthOf_spec (monthLengths_sum year.1 ▸ yearOf_spec (by omega))
  { sec := secs % 60
    min := secs / 60 % 60
    hour := secs / 3600
    mday := month.2 + 1
    mon := ⟨month.1, hmonth.1⟩
    year := (days + epochDays) / 146097 * 400 + year.1
    wday := ⟨((days + 4) % 7).toNat, by omega⟩
    sec_lt := by omega
    min_lt := by omega
    hour_lt := by omega
    mday_pos := by omega
    mday_le := by omega }

end Calendar
