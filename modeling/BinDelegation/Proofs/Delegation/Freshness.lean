import BinDelegation.Proofs.Chronology
import BinDelegation.Proofs.Delegation.Expiry

/-!
# Whether documents expire after they are issued

Lifetimes are positive, but the moment at which one ends is rounded down to a second. So an expiry
is later than the moment of issue exactly if the lifetime reaches the second after that of issue, as
every lifetime of a second does. A shorter one can end in the second of issue, and the document has
expired when it is issued.

A whole second is later than a moment if it comes after the second that the moment falls in
(`lt_lastSecond_iff`). So the comparison of an expiry with the moment of issue is one of seconds,
and `Outlasts` says of a lifetime what makes it come out right: what has passed of the second of
issue, together with the lifetime, is a second or more.

The checks ask for lifetimes that are positive, in nanoseconds. That excludes none of the lifetimes
that do not outlast the second of issue, and two settings at the end show both cases.
-/

namespace BinDelegation

namespace Settings

open Timestamp

variable {s : Settings} {d d' : Lifetime}

/-- A lifetime does not end in the second of issue. -/
def Outlasts (s : Settings) (d : Lifetime) : Prop :=
  nanosPerSecond ≤ s.issuedAt.utcNanos % nanosPerSecond + d.nanoseconds

/-- A longer lifetime outlasts the second of issue, too. -/
theorem Outlasts.mono (h : s.Outlasts d) (hle : d.nanoseconds ≤ d'.nanoseconds) : s.Outlasts d' :=
  Int.le_trans h (Int.add_le_add_left hle _)

/-- A lifetime of a second is long enough at any moment of issue. -/
theorem outlasts_of_le (h : nanosPerSecond ≤ d.nanoseconds) : s.Outlasts d :=
  Int.le_trans h (Int.le_add_of_nonneg_left (Int.emod_nonneg _ (by decide)))

/-- A whole second is later than a moment if it comes after the second of the moment. -/
theorem lt_lastSecond_iff : s.issuedAt.utcNanos < s.lastSecond d * nanosPerSecond ↔
    s.issuedAt.utcSecond < s.lastSecond d :=
  (Int.ediv_lt_iff_lt_mul (by decide)).symm

/-- A lifetime ends after the second of issue exactly if it outlasts it. -/
theorem utcSecond_lt_lastSecond_iff : s.issuedAt.utcSecond < s.lastSecond d ↔ s.Outlasts d := by
  rw [utcSecond, lastSecond, Outlasts, nanosPerSecond]
  omega

/-- A lifetime that does not outlast the second of issue ends in it. -/
theorem lastSecond_of_not_outlasts (hpositive : 0 < d.nanoseconds) (h : ¬ s.Outlasts d) :
    s.lastSecond d = s.issuedAt.utcSecond := by
  rw [← utcSecond_lt_lastSecond_iff, Int.not_lt] at h
  refine Int.le_antisymm h (Int.ediv_le_ediv (by decide) ?_)
  exact Int.le_add_of_nonneg_right hpositive.le

/-- Settings that pass the checks have expiries that are read back as seconds. The expiry of the
parent, or that of the bins, is later than the moment of issue if the lifetime outlasts the second
of issue, and else it is the beginning of that second. If the lifetime of the bins outlasts it, so
does that of the parent; and every lifetime of a second or more does. -/
theorem expires_after_issue_iff (h : s.validate = .ok ()) :
    (∃ parentText binText parentSecond binSecond,
      s.parentExpires = .ok parentText ∧ s.binExpires = .ok binText ∧
      secondOfText? parentText = some parentSecond ∧ secondOfText? binText = some binSecond ∧
      (s.issuedAt.utcNanos < parentSecond * nanosPerSecond ↔ s.Outlasts s.parentLifetime) ∧
      (s.issuedAt.utcNanos < binSecond * nanosPerSecond ↔ s.Outlasts s.binLifetime) ∧
      (¬ s.Outlasts s.parentLifetime → parentSecond = s.issuedAt.utcSecond) ∧
      (¬ s.Outlasts s.binLifetime → binSecond = s.issuedAt.utcSecond)) ∧
    (s.Outlasts s.binLifetime → s.Outlasts s.parentLifetime) ∧
    ∀ d : Lifetime, nanosPerSecond ≤ d.nanoseconds → s.Outlasts d := by
  obtain ⟨parentText, binText, hchecked⟩ := exists_checked_of_validate h
  obtain ⟨hpositive, hordered⟩ := lifetimes_of_validate h
  have hlater {d : Lifetime} :
      s.issuedAt.utcNanos < s.lastSecond d * nanosPerSecond ↔ s.Outlasts d :=
    lt_lastSecond_iff.trans utcSecond_lt_lastSecond_iff
  refine ⟨⟨parentText, binText, s.lastSecond s.parentLifetime, s.lastSecond s.binLifetime,
    hchecked.parentExpires, hchecked.binExpires, ?_, ?_, hlater, hlater, ?_, ?_⟩,
    fun houtlasts => houtlasts.mono hordered, fun _ => outlasts_of_le⟩
  · exact secondOfText?_of_expires hchecked.parentExpires
  · exact secondOfText?_of_expires hchecked.binExpires
  · exact lastSecond_of_not_outlasts (Int.lt_of_lt_of_le hpositive hordered)
  · exact lastSecond_of_not_outlasts hpositive

end Settings

namespace Sample

/-- Half a second into the year 2024, with lifetimes of a quarter of a second. -/
def momentary : Settings where
  partition := .standard
  issuedAt :=
    ⟨Calendar.dayOfDate ⟨2024, 1, 1⟩ * nanosPerDay + 500000000, 0, by decide +kernel⟩
  parentLifetime := ⟨250000000⟩
  binLifetime := ⟨250000000⟩

end Sample

namespace Settings

open Timestamp

/-- Of a lifetime of sixty days and one of a nanosecond, both from the last quarter of a second, the
first one outlasts the second of issue. -/
theorem expires_after_issue_of_newYear : Sample.newYear.validate = .ok () ∧
    ∃ parentText binText parentSecond binSecond,
      Sample.newYear.parentExpires = .ok parentText ∧ Sample.newYear.binExpires = .ok binText ∧
      secondOfText? parentText = some parentSecond ∧ secondOfText? binText = some binSecond ∧
      Sample.newYear.issuedAt.utcNanos < parentSecond * nanosPerSecond ∧
      binSecond = Sample.newYear.issuedAt.utcSecond := by
  have hvalidate : Sample.newYear.validate = .ok () := by decide +kernel
  have hlong : nanosPerSecond ≤ Sample.newYear.parentLifetime.nanoseconds := by decide
  have hshort : ¬ Sample.newYear.Outlasts Sample.newYear.binLifetime := by
    rw [Outlasts]
    decide +kernel
  obtain ⟨⟨parentText, binText, parentSecond, binSecond, hparent, hbin, hparentSecond, hbinSecond,
    hlater, -, -, hsame⟩, -, hseconds⟩ := expires_after_issue_iff hvalidate
  exact ⟨hvalidate, parentText, binText, parentSecond, binSecond, hparent, hbin, hparentSecond,
    hbinSecond, hlater.2 (hseconds _ hlong), hsame hshort⟩

/-- Settings can pass the checks and have expiries that are earlier than the moment of issue. -/
theorem exists_expired_at_issue : ∃ s : Settings, s.validate = .ok () ∧
    ∃ text second, s.parentExpires = .ok text ∧ s.binExpires = .ok text ∧
      secondOfText? text = some second ∧ second * nanosPerSecond < s.issuedAt.utcNanos :=
  ⟨Sample.momentary, by decide +kernel, "2024-01-01T00:00:00Z",
    Sample.momentary.issuedAt.utcSecond, by decide +kernel, by decide +kernel, by decide +kernel,
    by decide +kernel⟩

end Settings

end BinDelegation
