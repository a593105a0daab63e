import BinDelegation.Proofs.Delegation.Checking
import BinDelegation.Proofs.Timestamp

/-!
# What the expiries of a delegation say

The expiries of settings that pass the checks are read back as the seconds in which the two
lifetimes end. Rounding to seconds keeps the order of the ends, so no bin outlives the parent.

An expiry is a text of a second. `secondOfText?` reads such texts, and what it gives is compared
with the moment of issue and the lifetime, both counted in nanoseconds: `lastSecond` is their sum
rounded down, which its two bounds tell (`lastSecond_spec`).

The number that a text is read as depends on how days are numbered by dates. So the result on
expiries also pins this numbering: the first of January of the year 1 is day zero, and the day of
each date is followed by the day of the next date, by the rules of the calendar.
-/

namespace BinDelegation

namespace Settings

open Calendar Timestamp

variable {s : Settings} {d : Lifetime}

/-- Lifetimes that pass the checks are positive, and that of bins is at most that of the parent. -/
theorem lifetimes_of_validate (h : s.validate = .ok ()) :
    0 < s.binLifetime.nanoseconds ∧ s.binLifetime.nanoseconds ≤ s.parentLifetime.nanoseconds := by
  cases hversion : SpecVersion.parse s.specVersion with
  | error e =>
    simp only [validate, hversion] at h
    cases h
  | ok version =>
    simp only [validate, hversion] at h
    obtain ⟨_, hpositive, h⟩ := bind_eq_ok.1 h
    obtain ⟨_, hordered, -⟩ := bind_eq_ok.1 h
    have hpositive := require_eq_ok.1 hpositive
    rw [Bool.and_eq_true, decide_eq_true_eq, decide_eq_true_eq] at hpositive
    exact ⟨hpositive.2, of_decide_eq_true (require_eq_ok.1 hordered)⟩

/-- The second in which a lifetime ends. -/
def lastSecond (s : Settings) (d : Lifetime) : Int :=
  (s.issuedAt.utcNanos + d.nanoseconds) / nanosPerSecond

/-- The second in which a lifetime ends is the last whole one up to the end. -/
theorem lastSecond_spec (s : Settings) (d : Lifetime) :
    s.lastSecond d * nanosPerSecond ≤ s.issuedAt.utcNanos + d.nanoseconds ∧
      s.issuedAt.utcNanos + d.nanoseconds < (s.lastSecond d + 1) * nanosPerSecond :=
  ⟨Int.ediv_mul_le _ (by decide), Int.lt_ediv_add_one_mul_self _ (by decide)⟩

/-- A longer lifetime does not end in an earlier second. -/
theorem lastSecond_mono {d' : Lifetime} (h : d.nanoseconds ≤ d'.nanoseconds) :
    s.lastSecond d ≤ s.lastSecond d' :=
  Int.ediv_le_ediv (by decide) (Int.add_le_add_left h _)

/-- The text of the end of a lifetime is read back as its second. -/
theorem secondOfText?_of_expires {text : String} (h : s.expires d = .ok text) :
    secondOfText? text = some (s.lastSecond d) := by
  obtain ⟨hlocal, hutc⟩ := exists_expires_eq_ok.1 ⟨text, h⟩
  rw [expires_eq, if_pos hlocal, if_pos hutc] at h
  cases h
  obtain ⟨hle, hlt⟩ : hasDate (s.issuedAt.utcNanos + d.nanoseconds) := hutc
  rw [nanosPerDay, ← Int.mul_assoc] at hle hlt
  exact secondOfText?_secondText (Int.le_ediv_of_mul_le (by decide) hle)
    (Int.ediv_lt_of_lt_mul (by decide) hlt)

/-- Settings that pass the checks have expiries for the parent and for the bins. Each is a date and
a time of day of UTC, and they are the ones of the last whole second up to the moment at which the
lifetime ends. The expiry of the bins is not later than that of the parent. Days are numbered by
their dates in the proleptic Gregorian calendar: from the first of January of the year 1, by one
from each date to the next. -/
theorem expiries_of_validate (h : s.validate = .ok ()) :
    (∃ parentText binText parentSecond binSecond,
      s.parentExpires = .ok parentText ∧ s.binExpires = .ok binText ∧
      secondOfText? parentText = some parentSecond ∧ secondOfText? binText = some binSecond ∧
      parentSecond * nanosPerSecond ≤ s.issuedAt.utcNanos + s.parentLifetime.nanoseconds ∧
      s.issuedAt.utcNanos + s.parentLifetime.nanoseconds < (parentSecond + 1) * nanosPerSecond ∧
      binSecond * nanosPerSecond ≤ s.issuedAt.utcNanos + s.binLifetime.nanoseconds ∧
      s.issuedAt.utcNanos + s.binLifetime.nanoseconds < (binSecond + 1) * nanosPerSecond ∧
      binSecond ≤ parentSecond) ∧
    dayOfDate ⟨1, 1, 1⟩ = 0 ∧
    ∀ date, isDate date = true → dayOfDate date.next = dayOfDate date + 1 := by
  obtain ⟨parentText, binText, hchecked⟩ := exists_checked_of_validate h
  obtain ⟨-, hordered⟩ := lifetimes_of_validate h
  obtain ⟨hparentLe, hparentLt⟩ := s.lastSecond_spec s.parentLifetime
  obtain ⟨hbinLe, hbinLt⟩ := s.lastSecond_spec s.binLifetime
  refine ⟨⟨parentText, binText, s.lastSecond s.parentLifetime, s.lastSecond s.binLifetime,
    hchecked.parentExpires, hchecked.binExpires, ?_, ?_, hparentLe, hparentLt, hbinLe, hbinLt,
    lastSecond_mono hordered⟩, rfl, fun date hdate => dayOfDate_next hdate⟩
  · exact secondOfText?_of_expires hchecked.parentExpires
  · exact secondOfText?_of_expires hchecked.binExpires

end Settings

namespace Sample

/-- A quarter of a second before the year 2024 in a place five and a half hours ahead of UTC. The
lifetime of the parent leads to the leap day. -/
def newYear : Settings where
  partition := .standard
  issuedAt := ⟨Calendar.dayOfDate ⟨2024, 1, 1⟩ * nanosPerDay - 250000000, 19800, by decide +kernel⟩
  parentLifetime := ⟨60 * nanosPerDay⟩
  binLifetime := ⟨1⟩

end Sample

namespace Settings

open Timestamp

/-- A lifetime of sixty days leads to the leap day, and one of a nanosecond ends in the last second
of the year before, both in UTC. -/
theorem expiries_of_newYear : Sample.newYear.validate = .ok () ∧
    Sample.newYear.parentExpires = .ok "2024-02-29T18:29:59Z" ∧
    Sample.newYear.binExpires = .ok "2023-12-31T18:29:59Z" ∧
    ∃ parentText binText parentSecond binSecond,
      Sample.newYear.parentExpires = .ok parentText ∧ Sample.newYear.binExpires = .ok binText ∧
      secondOfText? parentText = some parentSecond ∧ secondOfText? binText = some binSecond ∧
      binSecond ≤ parentSecond := by
  have hvalidate : Sample.newYear.validate = .ok () := by decide +kernel
  obtain ⟨⟨parentText, binText, parentSecond, binSecond, hparent, hbin, hparentSecond, hbinSecond,
    -, -, -, -, hle⟩, -⟩ := expiries_of_validate hvalidate
  exact ⟨hvalidate, by decide +kernel, by decide +kernel, parentText, binText, parentSecond,
    binSecond, hparent, hbin, hparentSecond, hbinSecond, hle⟩

end Settings

end BinDelegation
