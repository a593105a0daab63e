import BinDelegation.Proofs.Calendar
import BinDelegation.Proofs.Text.Decimal
import BinDelegation.Timestamp

/-!
# Written moments in their order

A moment is written as its year, month, day, hour, minute and second in UTC. Each number has a width
of its own, and the greater ones stand in front. So texts are in the order of the seconds that they
are written for, as long as the year needs no sign and no fifth digit.

The order of texts is that of their characters, one after the other. `padded_append_lt` compares two
numbers of one width and leaves what stands behind them to the next comparison; it is used once for
every number of the date (`dateText_append_lt`) and of the time of day (`clockText_lt`). That the
numbers themselves are in the order of the seconds is a fact about days and dates, and about
quotients of the time of day.

A moment has a finer grain than its text. What is left of a second does not show in the text, so the
order of texts is that of moments rounded down.
-/

namespace BinDelegation.Timestamp

open Calendar Digits

/-! ## Texts of seconds -/

/-- The time of day as it stands in a text. -/
def clockText (time : Nat) : List Char :=
  padded 2 (time / 3600) ++ ':' :: padded 2 (time / 60 % 60) ++ ':' :: padded 2 (time % 60) ++ ['Z']

/-- A written second is its date, the letter `T`, and its time of day. -/
theorem toList_secondText (second : Int) : (secondText second).toList
    = (dateOfDay (second / secondsPerDay)).text
      ++ 'T' :: clockText (second % secondsPerDay).toNat := by
  simp [secondText, clockText]

/-- Dates and what is behind them are in the order of the dates, and on the same date, in the order
of what is behind them. -/
theorem dateText_append_lt {date date' : Date} {c : Char} {x y : List Char}
    (hyear : 0 ≤ date.year) (hyear' : date'.year ≤ 9999) (hmonth : date'.month < 100)
    (hday : date'.day < 100) (h : date.Before date' ∨ date = date' ∧ x < y) :
    date.text ++ c :: x < date'.text ++ c :: y := by
  have hsplit : date.year < date'.year ∨ date.year = date'.year ∧
      (date.month < date'.month ∨ date.month = date'.month ∧
        (date.day < date'.day ∨ date.day = date'.day ∧ x < y)) := by
    rcases h with (hlt | ⟨hyears, hlt | ⟨hmonths, hlt⟩⟩) | ⟨rfl, hlt⟩
    · exact .inl hlt
    · exact .inr ⟨hyears, .inl hlt⟩
    · exact .inr ⟨hyears, .inr ⟨hmonths, .inl hlt⟩⟩
    · exact .inr ⟨rfl, .inr ⟨rfl, .inr ⟨rfl, hlt⟩⟩⟩
  have hpos : 0 ≤ date'.year := by omega
  have hyears : date.year.natAbs < date'.year.natAbs ∨ date.year.natAbs = date'.year.natAbs ∧
      (date.month < date'.month ∨ date.month = date'.month ∧
        (date.day < date'.day ∨ date.day = date'.day ∧ x < y)) :=
    hsplit.imp (by omega) (And.imp_left (by omega))
  -- Neither year is negative, so both are written without a sign, with four digits.
  simp only [Date.text, if_neg (Int.not_lt.2 hyear), if_neg (Int.not_lt.2 hpos), List.nil_append,
    List.append_assoc, List.cons_append]
  refine padded_append_lt (by decide) (by omega) hyears fun hmonths => ?_
  refine padded_append_lt (by decide) hmonth hmonths fun hdays => ?_
  exact padded_append_lt (by decide) hday hdays id

/-- Later times of day have greater texts. -/
theorem clockText_lt {time time' : Nat} (h : time < time') (hday : time' < 86400) :
    clockText time < clockText time' := by
  have hhours : time / 3600 < time' / 3600 ∨ time / 3600 = time' / 3600 ∧
      (time / 60 % 60 < time' / 60 % 60 ∨ time / 60 % 60 = time' / 60 % 60 ∧
        time % 60 < time' % 60) := by omega
  simp only [clockText, List.append_assoc, List.cons_append]
  refine padded_append_lt (by decide) (by omega) hhours fun hminutes => ?_
  refine padded_append_lt (by decide) (by omega) hminutes fun hseconds => ?_
  exact padded_append_lt (by decide) (by omega) (.inl hseconds) id

/-- Later seconds have greater texts. -/
theorem secondText_lt {second second' : Int} (h : second < second')
    (hyear : 0 ≤ (dateOfDay (second / secondsPerDay)).year)
    (hyear' : (dateOfDay (second' / secondsPerDay)).year ≤ 9999) :
    secondText second < secondText second' := by
  obtain ⟨hmonth, hday⟩ := dateOfDay_lt (second' / secondsPerDay)
  rw [String.lt_iff, toList_secondText, toList_secondText]
  refine dateText_append_lt hyear hyear' hmonth hday ?_
  have hdays : second / secondsPerDay ≤ second' / secondsPerDay :=
    Int.ediv_le_ediv (by decide) h.le
  -- Either the day is a later one, or it is the same and the time of day is later.
  rcases Int.lt_or_eq_of_le hdays with hlt | heq
  · exact .inl (dateOfDay_before hlt)
  · refine .inr ⟨congrArg dateOfDay heq, clockText_lt ?_ ?_⟩
    · rw [secondsPerDay] at heq ⊢
      omega
    · rw [secondsPerDay]
      omega

/-! ## Texts of moments -/

/-- The year of UTC that a moment falls in. -/
def utcYear (t : Timestamp) : Int := (dateOfDay (t.utcNanos / nanosPerDay)).year

/-- The second of UTC that a moment falls in. -/
def utcSecond (t : Timestamp) : Int := t.utcNanos / nanosPerSecond

variable {t t' : Timestamp}

/-- The year of a moment is that of its second. -/
theorem utcYear_eq (t : Timestamp) :
    t.utcYear = (dateOfDay (t.utcSecond / secondsPerDay)).year := by
  rw [utcYear, utcSecond, nanosPerDay, Int.mul_comm, Int.ediv_ediv_of_nonneg (by decide)]

/-- A moment can be written if its year of UTC is in the calendar. -/
theorem expiryText?_of_utcYear (hyear : minYear ≤ t.utcYear) (hyear' : t.utcYear ≤ maxYear) :
    t.expiryText? = some (secondText t.utcSecond) := by
  obtain ⟨hbegins, hends⟩ := yearOfDay_spec (t.utcNanos / nanosPerDay)
  have hfirst : firstDay ≤ t.utcNanos / nanosPerDay :=
    Int.le_trans (daysBeforeYear_mono hyear) hbegins
  have hend : t.utcNanos / nanosPerDay < endDay :=
    Int.lt_of_lt_of_le hends (daysBeforeYear_mono (Int.add_le_add_right hyear' 1))
  rw [expiryText?, if_pos ⟨(Int.le_ediv_iff_mul_le (by decide)).1 hfirst,
    (Int.ediv_lt_iff_lt_mul (by decide)).1 hend⟩, utcSecond]

/-- Texts of moments are in the order of their seconds, and in no other. -/
theorem secondText_lt_iff (hyear : 0 ≤ t.utcYear ∧ t.utcYear ≤ 9999)
    (hyear' : 0 ≤ t'.utcYear ∧ t'.utcYear ≤ 9999) :
    secondText t.utcSecond < secondText t'.utcSecond ↔ t.utcSecond < t'.utcSecond := by
  rw [utcYear_eq] at hyear hyear'
  refine ⟨fun h => ?_, fun h => secondText_lt h hyear.1 hyear'.2⟩
  by_contra hnot
  rcases Int.lt_or_eq_of_le (Int.not_lt.1 hnot) with hlt | heq
  · exact String.lt_asymm h (secondText_lt hlt hyear'.1 hyear.2)
  · rw [heq] at h
    exact String.lt_irrefl _ h

/-- Moments whose years of UTC have four digits are written, and their texts are in the order of the
moments rounded down to a second. -/
theorem expiryText?_order (t t' : Timestamp) (hyear : 0 ≤ t.utcYear ∧ t.utcYear ≤ 9999)
    (hyear' : 0 ≤ t'.utcYear ∧ t'.utcYear ≤ 9999) :
    ∃ text text', t.expiryText? = some text ∧ t'.expiryText? = some text' ∧
      (utf8 text ≤ utf8 text' ↔ t.utcSecond ≤ t'.utcSecond) ∧
      (text = text' ↔ t.utcSecond = t'.utcSecond) := by
  have hwritten {t : Timestamp} (h : 0 ≤ t.utcYear ∧ t.utcYear ≤ 9999) :=
    expiryText?_of_utcYear (Int.le_trans (by decide) h.1) h.2
  refine ⟨_, _, hwritten hyear, hwritten hyear', ?_, ?_⟩
  · rw [utf8_le_iff, secondText_lt_iff hyear' hyear, Int.not_lt]
  · refine ⟨fun h => ?_, congrArg secondText⟩
    have hnot : ¬t.utcSecond < t'.utcSecond := by
      rw [← secondText_lt_iff hyear hyear', h]
      exact String.lt_irrefl _
    have hnot' : ¬t'.utcSecond < t.utcSecond := by
      rw [← secondText_lt_iff hyear' hyear, h]
      exact String.lt_irrefl _
    omega

/-- Half an hour into the year 2024 of UTC, and most of a second, where it is still 2023. -/
def behindNewYear : Timestamp :=
  ⟨dayOfDate ⟨2023, 12, 31⟩ * nanosPerDay + 84600900000000, -3600, by decide +kernel⟩

/-- Half an hour into the year 2024 of UTC, where it is an hour later. -/
def aheadOfNewYear : Timestamp :=
  ⟨dayOfDate ⟨2024, 1, 1⟩ * nanosPerDay + 5400000000000, 3600, by decide +kernel⟩

/-- Moments of one second have one text, whatever their local dates. -/
theorem expiryText?_order_of_new_year : ∃ text text', behindNewYear.expiryText? = some text ∧
    aheadOfNewYear.expiryText? = some text' ∧ utf8 text ≤ utf8 text' ∧ text = text' := by
  have hsecond : behindNewYear.utcSecond = aheadOfNewYear.utcSecond := by decide +kernel
  obtain ⟨text, text', hwritten, hwritten', horder, hsame⟩ :=
    expiryText?_order behindNewYear aheadOfNewYear (by decide +kernel) (by decide +kernel)
  exact ⟨text, text', hwritten, hwritten', horder.2 hsecond.le, hsame.2 hsecond⟩

end BinDelegation.Timestamp
