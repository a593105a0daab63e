import BinDelegation.Proofs.Calendar
import BinDelegation.Proofs.Text.Decimal
import BinDelegation.Timestamp

/-!
# Reading written moments

A second of UTC is told by its text: the date tells the day, and the time of day the second in it.
The text has a fixed length behind the year, so the year is found from the end.

`secondOfText?` is the reading that is not part of the program: it is what a reader of a published
document does with an expiry. It is proved a left inverse of the writing for every second of the
calendar (`secondOfText?_secondText`), years before 0 and after 9999 included, so a statement about
the second that a text denotes is one about the text.

Dates and times are written with leading zeros, and a number of at most two digits is read back from
two characters; the calendar part is `dayOfDate_dateOfDay`.
-/

namespace BinDelegation

namespace Timestamp

open Calendar Digits

/-! ## Dates -/

/-- The year of a date as text. -/
def yearText (year : Int) : List Char := (if year < 0 then ['-'] else []) ++ padded 4 year.natAbs

/-- A year is read back from its text, with its sign. -/
theorem yearOfText?_yearText (year : Int) : yearOfText? (yearText year) = some year := by
  have hlength : ¬ (padded 4 year.natAbs).length < 4 := Nat.not_lt.2 length_le_padded
  rw [yearText]
  split
  · next hneg =>
    rw [List.singleton_append, yearOfText?, if_neg hlength, number?_padded]
    show some (-(year.natAbs : Int)) = some year
    congr 1
    omega
  · next hpos =>
    rw [List.nil_append, yearOfText?]
    · rw [if_neg hlength, number?_padded]
      show some (year.natAbs : Int) = some year
      congr 1
      omega
    -- No year without a sign begins with a minus sign.
    · intro digits hminus
      have hdigit : isDigit '-' = true :=
        isDigit_of_mem_padded (hminus ▸ List.mem_cons_self)
      exact absurd hdigit (by decide)

/-- The date of a text, part by part. -/
theorem exists_dateText {date : Date} (h : isDate date = true) : ∃ m m' d d',
    date.text = yearText date.year ++ ['-', m, m', '-', d, d'] ∧
      number? [m, m'] = some date.month ∧ number? [d, d'] = some date.day := by
  obtain ⟨hmonth, hday⟩ := lt_of_isDate h
  obtain ⟨m, m', hm, hmonth'⟩ := exists_padded_two hmonth
  obtain ⟨d, d', hd, hday'⟩ := exists_padded_two hday
  refine ⟨m, m', d, d', ?_, hmonth', hday'⟩
  rw [Date.text, hm, hd, yearText, List.append_assoc]
  simp

/-! ## Seconds -/

/-- A text is read by its parts, if they denote numbers. -/
theorem secondOfText?_of_toList {text : String} {year : List Char} {date : Date}
    {m m' d d' h h' n n' s s' : Char} {hour minute second : Nat}
    (htext : text.toList
      = year ++ ['-', m, m', '-', d, d', 'T', h, h', ':', n, n', ':', s, s', 'Z'])
    (hyear : yearOfText? year = some date.year) (hmonth : number? [m, m'] = some date.month)
    (hday : number? [d, d'] = some date.day) (hhour : number? [h, h'] = some hour)
    (hminute : number? [n, n'] = some minute) (hsecond : number? [s, s'] = some second) :
    secondOfText? text = if isDate date ∧ hour < 24 ∧ minute < 60 ∧ second < 60 then
      some (dayOfDate date * secondsPerDay + ((hour * 60 + minute) * 60 + second : Nat))
    else none := by
  have hlength : text.toList.length - 16 = year.length := by
    rw [htext, List.length_append]
    exact Nat.add_sub_cancel _ 16
  have hdrop : text.toList.drop year.length
      = ['-', m, m', '-', d, d', 'T', h, h', ':', n, n', ':', s, s', 'Z'] := by
    rw [htext, List.drop_left]
  have htake : text.toList.take year.length = year := by rw [htext, List.take_left]
  unfold secondOfText?
  simp only [hlength, hdrop, htake, hyear, hmonth, hday, hhour, hminute, hsecond,
    Option.bind_eq_bind, Option.bind_some]

/-- A second with a date is read back from its text. -/
theorem secondOfText?_secondText {second : Int} (hle : firstDay * secondsPerDay ≤ second)
    (hlt : second < endDay * secondsPerDay) : secondOfText? (secondText second) = some second := by
  have hdate : isDate (dateOfDay (second / secondsPerDay)) = true :=
    isDate_dateOfDay (Int.le_ediv_of_mul_le (by decide) hle) (Int.ediv_lt_of_lt_mul (by decide) hlt)
  obtain ⟨time, htime⟩ : ∃ time : Nat, second % secondsPerDay = time :=
    ⟨_, (Int.toNat_of_nonneg (Int.emod_nonneg second (by decide))).symm⟩
  have hbound : (time : Int) < 86400 := htime ▸ Int.emod_lt_of_pos second (by decide)
  obtain ⟨m, m', d, d', hdateText, hmonth, hday⟩ := exists_dateText hdate
  obtain ⟨h, h', hhourText, hhour⟩ := exists_padded_two (n := time / 3600) (by omega)
  obtain ⟨n, n', hminuteText, hminute⟩ := exists_padded_two (n := time / 60 % 60) (by omega)
  obtain ⟨s, s', hsecondText, hsecond⟩ := exists_padded_two (n := time % 60) (by omega)
  have htext : (secondText second).toList = yearText (dateOfDay (second / secondsPerDay)).year
      ++ ['-', m, m', '-', d, d', 'T', h, h', ':', n, n', ':', s, s', 'Z'] := by
    simp [secondText, htime, hdateText, hhourText, hminuteText, hsecondText]
  -- The parts are read back, and day and time together are the second.
  rw [secondOfText?_of_toList htext (yearOfText?_yearText _) hmonth hday hhour hminute hsecond,
    if_pos ⟨hdate, by omega, by omega, by omega⟩, dayOfDate_dateOfDay]
  refine congrArg some ?_
  have hsplit := Int.mul_ediv_add_emod second secondsPerDay
  rw [htime, Int.mul_comm] at hsplit
  omega

end Timestamp

end BinDelegation
