import BinDelegation.Calendar
import Mathlib.Algebra.BigOperators.Group.List.Basic
import Mathlib.Algebra.Order.Ring.Int

/-!
# Days and dates

Every day has one date, and the date leads back to the day: a day falls into the year that begins
last before it, and there into the month whose days it is among. The dates follow each other by the
rules of the calendar, from the first of January of the year 1 on and back. Later days have later
dates.

Days are counted by whole years (`daysBeforeYear`, with the leap years in its quotients) and by
whole months. `yearOfDay_spec` says that the guess for the year, taken from the mean length of a
year, is corrected to the right one, and `exists_monthAndDay` says the same of the month by
induction on the lengths of the months. `exists_dateOfDay` puts both together: a day is the days
before its year, those of the months before its own, and a rest. All that follows is read off this
equation.

The calendar has the years from -9999 to 9999. A day outside has a date all the same, but none that
is written.
-/

namespace BinDelegation.Calendar

/-! ## Years -/

theorem length_monthLengths (year : Int) : (monthLengths year).length = 12 := rfl

/-- No month has more than 31 days. -/
theorem length_le_of_mem {year : Int} {length : Nat} (h : length ∈ monthLengths year) :
    length ≤ 31 := by
  rw [monthLengths] at h
  split at h <;> simp at h <;> omega

/-- A month within the year has the length that is looked up for it. -/
theorem getD_monthLengths {year : Int} {k : Nat} (hk : k < (monthLengths year).length) :
    (monthLengths year).getD k 0 = (monthLengths year)[k] := by
  rw [List.getD_eq_getElem?_getD, List.getElem?_eq_getElem hk, Option.getD_some]

/-- The rule of leap years. -/
theorem isLeap_iff {year : Int} :
    isLeap year = true ↔ year % 4 = 0 ∧ (year % 100 ≠ 0 ∨ year % 400 = 0) := by
  simp [isLeap]

/-- A year is as long as its months together. -/
theorem daysBeforeYear_succ (year : Int) :
    daysBeforeYear (year + 1) = daysBeforeYear year + (monthLengths year).sum := by
  have hsum : ((monthLengths year).sum : Int) = if isLeap year then 366 else 365 := by
    rw [monthLengths]
    split <;> rfl
  -- Each quotient grows by one at its multiples.
  have h4 : year / 4 = (year - 1) / 4 + if year % 4 = 0 then 1 else 0 := by split <;> omega
  have h100 : year / 100 = (year - 1) / 100 + if year % 100 = 0 then 1 else 0 := by split <;> omega
  have h400 : year / 400 = (year - 1) / 400 + if year % 400 = 0 then 1 else 0 := by split <;> omega
  have hmod : year % 100 = 0 → year % 4 = 0 := by omega
  have hmod' : year % 400 = 0 → year % 100 = 0 := by omega
  rw [hsum, daysBeforeYear, daysBeforeYear, Int.add_sub_cancel, h4, h100, h400]
  simp only [isLeap_iff]
  generalize (year - 1) / 4 = quarters, (year - 1) / 100 = centuries, (year - 1) / 400 = cycles,
    year % 4 = rest, year % 100 = rest', year % 400 = rest'' at *
  grind

/-- Later years begin later. -/
theorem daysBeforeYear_mono {year year' : Int} (h : year ≤ year') :
    daysBeforeYear year ≤ daysBeforeYear year' := by
  rw [daysBeforeYear, daysBeforeYear]
  omega

/-- A day is in its year. -/
theorem yearOfDay_spec (day : Int) :
    daysBeforeYear (yearOfDay day) ≤ day ∧ day < daysBeforeYear (yearOfDay day + 1) := by
  -- The mean length of a year leads to the year or to one beside it.
  have hbelow : daysBeforeYear (day * 400 / 146097 + 1 - 1) ≤ day := by
    rw [daysBeforeYear]
    omega
  have habove : day < daysBeforeYear (day * 400 / 146097 + 1 + 1 + 1) := by
    rw [daysBeforeYear]
    omega
  rw [yearOfDay]
  split
  · next hlt => exact ⟨hbelow, by rwa [Int.sub_add_cancel]⟩
  · next hge =>
    split
    · next hle => exact ⟨hle, habove⟩
    · next hlt => exact ⟨Int.not_lt.1 hge, Int.not_le.1 hlt⟩

/-! ## Months -/

/-- A day within months of the given lengths falls into one of them, behind the days of those
before it. -/
theorem exists_monthAndDay (month : Nat) {lengths : List Nat} {index : Nat}
    (h : index < lengths.sum) : ∃ k, ∃ hk : k < lengths.length, ∃ rest < lengths[k],
      index = (lengths.take k).sum + rest ∧
        monthAndDay month lengths index = (month + k, rest + 1) := by
  induction lengths generalizing month index with
  | nil => simp at h
  | cons length lengths ih =>
    rw [monthAndDay]
    split
    · next hlt => exact ⟨0, by simp, index, hlt, by simp, rfl⟩
    · next hge =>
      -- The day is behind the first month. It keeps its place among the days of the others.
      rw [List.sum_cons] at h
      have hless : index - length < lengths.sum := by omega
      obtain ⟨k, hk, rest, hrest, hindex, hfound⟩ := ih (month + 1) hless
      refine ⟨k + 1, by simpa using hk, rest, by simpa using hrest, ?_, ?_⟩
      · rw [List.take_succ_cons, List.sum_cons]
        omega
      · rw [hfound, Nat.add_right_comm, Nat.add_assoc]

/-- The date of a day, as the number of whole months before it in its year and the days behind
them. -/
theorem exists_dateOfDay (day : Int) : ∃ k, ∃ hk : k < (monthLengths (yearOfDay day)).length,
    ∃ rest < (monthLengths (yearOfDay day))[k],
      day = daysBeforeYear (yearOfDay day) + ((monthLengths (yearOfDay day)).take k).sum + rest ∧
        dateOfDay day = ⟨yearOfDay day, k + 1, rest + 1⟩ := by
  obtain ⟨hle, hlt⟩ := yearOfDay_spec day
  rw [daysBeforeYear_succ] at hlt
  have hless : (day - daysBeforeYear (yearOfDay day)).toNat
      < (monthLengths (yearOfDay day)).sum := by omega
  obtain ⟨k, hk, rest, hrest, hindex, hfound⟩ := exists_monthAndDay 1 hless
  refine ⟨k, hk, rest, hrest, by omega, ?_⟩
  rw [dateOfDay, hfound, Nat.add_comm 1 k]

/-- The number of a date's day, by the months before its own. -/
theorem dayOfDate_mk (year : Int) (k day : Nat) : dayOfDate ⟨year, k + 1, day⟩
    = daysBeforeYear year + ((monthLengths year).take k).sum + day - 1 := rfl

/-- The date of a day leads back to the day. -/
theorem dayOfDate_dateOfDay (day : Int) : dayOfDate (dateOfDay day) = day := by
  obtain ⟨k, hk, rest, hrest, hday, hdate⟩ := exists_dateOfDay day
  rw [hdate, dayOfDate_mk]
  omega

/-- The days between the first and the last year have a date in the calendar. -/
theorem isDate_dateOfDay {day : Int} (hle : firstDay ≤ day) (hlt : day < endDay) :
    isDate (dateOfDay day) = true := by
  obtain ⟨k, hk, rest, hrest, -, hdate⟩ := exists_dateOfDay day
  obtain ⟨hbegins, hends⟩ := yearOfDay_spec day
  have hmin : minYear ≤ yearOfDay day := by
    by_contra h
    have := daysBeforeYear_mono (Int.add_one_le_of_lt (Int.not_le.1 h))
    rw [firstDay] at hle
    omega
  have hmax : yearOfDay day ≤ maxYear := by
    by_contra h
    have := daysBeforeYear_mono (Int.add_one_le_of_lt (Int.not_le.1 h))
    rw [endDay] at hlt
    omega
  rw [hdate, isDate]
  simp only [Nat.add_sub_cancel, getD_monthLengths hk, Bool.and_eq_true, decide_eq_true_eq]
  rw [length_monthLengths] at hk
  omega

/-! ## From one day to the next -/

/-- The date of the day after: in the same month, else in the same year, else the first of the next
year. -/
def Date.next (date : Date) : Date :=
  if date.day < (monthLengths date.year).getD (date.month - 1) 0 then
    { date with day := date.day + 1 }
  else if date.month < 12 then ⟨date.year, date.month + 1, 1⟩
  else ⟨date.year + 1, 1, 1⟩

/-- The month of a date is one of the year, and its day is one of the month. -/
theorem exists_of_isDate {date : Date} (h : isDate date = true) :
    ∃ k, ∃ hk : k < (monthLengths date.year).length,
      date.month = k + 1 ∧ date.day ≤ (monthLengths date.year)[k] := by
  simp only [isDate, Bool.and_eq_true, decide_eq_true_eq] at h
  obtain ⟨⟨⟨⟨-, hpos⟩, hmonth⟩, -⟩, hlast⟩ := h
  have hk : date.month - 1 < (monthLengths date.year).length := by
    rw [length_monthLengths]
    omega
  rw [getD_monthLengths hk] at hlast
  exact ⟨date.month - 1, hk, by omega, hlast⟩

/-- Months and days have at most two digits. -/
theorem lt_of_isDate {date : Date} (h : isDate date = true) :
    date.month < 100 ∧ date.day < 100 := by
  obtain ⟨k, hk, hmonth, hday⟩ := exists_of_isDate h
  have hlength := length_le_of_mem (List.getElem_mem hk)
  rw [length_monthLengths] at hk
  omega

/-- Days are numbered in the order of their dates. -/
theorem dayOfDate_next {date : Date} (h : isDate date = true) :
    dayOfDate date.next = dayOfDate date + 1 := by
  obtain ⟨k, hk, hmonth, hday⟩ := exists_of_isDate h
  obtain ⟨year, month, day⟩ := date
  obtain rfl : month = k + 1 := hmonth
  have hlast : day ≤ (monthLengths year)[k] := hday
  have hmonths := List.sum_take_succ (monthLengths year) k hk
  unfold Date.next
  simp only [Nat.add_sub_cancel, getD_monthLengths hk]
  split
  · next hlt =>
    rw [dayOfDate_mk, dayOfDate_mk]
    omega
  · next hge =>
    -- The last day of a month is followed by the first of the next, and the last of December by the
    -- first of January.
    split
    · next hmore =>
      rw [dayOfDate_mk, dayOfDate_mk, hmonths]
      omega
    · next hdecember =>
      have hall : (monthLengths year).take (k + 1) = monthLengths year :=
        List.take_of_length_le (Nat.le_of_not_lt hdecember)
      rw [hall] at hmonths
      rw [dayOfDate_mk (year + 1) 0, dayOfDate_mk, daysBeforeYear_succ, hmonths, List.take_zero,
        List.sum_nil]
      omega

/-! ## The order of dates -/

/-- A date comes before another if it is in an earlier year, or in an earlier month of the year, or
on an earlier day of the month. -/
def Date.Before (date date' : Date) : Prop :=
  date.year < date'.year ∨ date.year = date'.year ∧
    (date.month < date'.month ∨ date.month = date'.month ∧ date.day < date'.day)

/-- A day further on in the months is in a later one, or further on in the same. -/
theorem month_lt_or_eq {lengths : List Nat} {k k' rest rest' : Nat} (hk' : k' < lengths.length)
    (hrest' : rest' < lengths[k'])
    (h : (lengths.take k).sum + rest < (lengths.take k').sum + rest') :
    k < k' ∨ k = k' ∧ rest < rest' := by
  rcases Nat.lt_trichotomy k k' with hlt | rfl | hgt
  · exact .inl hlt
  · exact .inr ⟨rfl, Nat.lt_of_add_lt_add_left h⟩
  · -- The whole of the later month would be before the earlier day.
    obtain ⟨more, rfl⟩ := Nat.exists_eq_add_of_le (Nat.succ_le_of_lt hgt)
    rw [List.take_add, List.sum_append, List.sum_take_succ lengths k' hk'] at h
    omega

/-- Later days have later dates. -/
theorem dateOfDay_before {day day' : Int} (h : day < day') :
    (dateOfDay day).Before (dateOfDay day') := by
  obtain ⟨hbegins, -⟩ := yearOfDay_spec day
  obtain ⟨-, hends⟩ := yearOfDay_spec day'
  obtain ⟨k, -, rest, -, hday, hdate⟩ := exists_dateOfDay day
  obtain ⟨k', hk', rest', hrest', hday', hdate'⟩ := exists_dateOfDay day'
  rw [hdate, hdate', Date.Before]
  generalize yearOfDay day = year, yearOfDay day' = year' at *
  rcases Int.lt_trichotomy year year' with hlt | rfl | hgt
  · exact .inl hlt
  · have hmonth : k < k' ∨ k = k' ∧ rest < rest' := month_lt_or_eq hk' hrest' (by omega)
    refine .inr ⟨rfl, ?_⟩
    rwa [Nat.add_lt_add_iff_right, Nat.add_right_cancel_iff, Nat.add_lt_add_iff_right]
  · have hyears := daysBeforeYear_mono (Int.add_one_le_of_lt hgt)
    omega

/-- The months and days of dates have at most two digits. -/
theorem dateOfDay_lt (day : Int) : (dateOfDay day).month < 100 ∧ (dateOfDay day).day < 100 := by
  obtain ⟨k, hk, rest, hrest, -, hdate⟩ := exists_dateOfDay day
  have hlength := length_le_of_mem (List.getElem_mem hk)
  rw [length_monthLengths] at hk
  rw [hdate]
  show k + 1 < 100 ∧ rest + 1 < 100
  omega

end BinDelegation.Calendar
