import BinDelegation.Proofs.Delegation.Building

/-!
# How the checks of settings end

A lifetime is counted in local time, and the moment at which it ends is written in UTC. Near the
ends of the calendar a moment can have a local date and none in UTC. There the checks stop the
program; everywhere else they pass, or report that the settings cannot be used. Building a
delegation ends as the checks do.

The end of one lifetime is told by the dates that it has (`EndsLocally`, `EndsInUtc`) in a single
equation, `expires_eq`, from which its three outcomes are read off. What can come of the checks then
follows by taking them off one by one: each of them reports a fault (`IsFault`), except the two that
write an expiry, which may stop the program as well.

`validate_eq_crashed` says when the checks stop the program: when they come to a lifetime of which
the program stops, which needs the version and the lengths of the lifetimes to be in order, and the
parent's expiry to be written if it is that of the bins. Without an offset the local date is the
date in UTC, so this does not happen there (`endsInUtc_of_offset`).
-/

namespace BinDelegation

namespace Settings

variable {s : Settings} {d : Lifetime} {e : Failure}

/-! ## The end of a lifetime -/

/-- The moment at which a lifetime ends has a local date. -/
def EndsLocally (s : Settings) (d : Lifetime) : Prop :=
  hasDate (s.issuedAt.localNanos + d.nanoseconds)

/-- The moment at which a lifetime ends has a date in UTC. -/
def EndsInUtc (s : Settings) (d : Lifetime) : Prop := hasDate (s.issuedAt.utcNanos + d.nanoseconds)

instance : Decidable (s.EndsLocally d) := inferInstanceAs (Decidable (hasDate _))

instance : Decidable (s.EndsInUtc d) := inferInstanceAs (Decidable (hasDate _))

/-- A failure that tells what is wrong with settings. -/
def IsFault (e : Failure) : Prop := ∃ reason, e = .reported (.invalidConfiguration reason)

/-- A program that stops does not tell what is wrong. -/
theorem not_isFault_crashed : ¬ IsFault .crashed := by
  rintro ⟨reason, h⟩
  cases h

/-- What becomes of the end of a lifetime, by the dates that it has. -/
theorem expires_eq (s : Settings) (d : Lifetime) : s.expires d
    = if s.EndsLocally d then
        if s.EndsInUtc d then
          .ok (Timestamp.secondText ((s.issuedAt.utcNanos + d.nanoseconds) / nanosPerSecond))
        else .error .crashed
      else
        .error (.reported (.invalidConfiguration ("expiry " ++ toString d.wholeDays
          ++ " days after " ++ s.issuedAt.localText ++ " is out of range"))) := by
  rw [expires, expiry, Timestamp.after?]
  by_cases hlocal : s.EndsLocally d
  · have hdate : hasDate (s.issuedAt.localNanos + d.nanoseconds) := hlocal
    -- The moment in UTC is further on by the lifetime, as the local one is.
    have hutc : Timestamp.utcNanos ⟨_, s.issuedAt.offset, hdate⟩
        = s.issuedAt.utcNanos + d.nanoseconds := by
      simp only [Timestamp.utcNanos]
      omega
    simp only [dif_pos hdate, if_pos hlocal, Timestamp.expiryText?, hutc]
    by_cases hends : s.EndsInUtc d
    · have hdateUtc : hasDate (s.issuedAt.utcNanos + d.nanoseconds) := hends
      simp only [if_pos hdateUtc, if_pos hends]
    · have hdateUtc : ¬ hasDate (s.issuedAt.utcNanos + d.nanoseconds) := hends
      simp only [if_neg hdateUtc, if_neg hends]
  · have hdate : ¬ hasDate (s.issuedAt.localNanos + d.nanoseconds) := hlocal
    simp only [dif_neg hdate, if_neg hlocal]

/-- A lifetime has an expiry if its end has both dates. -/
theorem exists_expires_eq_ok :
    (∃ text, s.expires d = .ok text) ↔ s.EndsLocally d ∧ s.EndsInUtc d := by
  rw [expires_eq]
  split
  · split <;> simp_all
  · simp_all

/-- The program stops of a lifetime whose end has a local date alone. -/
theorem expires_eq_crashed :
    s.expires d = .error .crashed ↔ s.EndsLocally d ∧ ¬ s.EndsInUtc d := by
  rw [expires_eq]
  split
  · split <;> simp_all
  · simp_all

/-- A lifetime without an expiry is a fault of the settings, or stops the program. -/
theorem isFault_or_crashed_of_expires (h : s.expires d = .error e) : IsFault e ∨ e = .crashed := by
  rw [expires_eq] at h
  split at h
  · split at h
    · cases h
    · cases h
      exact .inr rfl
  · cases h
    exact .inl ⟨_, rfl⟩

/-- Without an offset, the dates of a moment are the same. -/
theorem endsInUtc_of_offset (h : s.issuedAt.offset = 0) : s.EndsInUtc d ↔ s.EndsLocally d := by
  have hsame : s.issuedAt.utcNanos = s.issuedAt.localNanos := by
    rw [Timestamp.utcNanos, h, Int.zero_mul, Int.sub_zero]
  rw [EndsInUtc, EndsLocally, hsame]

/-! ## The checks -/

/-- What is required and does not hold is a fault of the settings. -/
theorem isFault_of_require {condition : Bool} {reason : String}
    (h : require condition reason = .error e) : IsFault e := by
  cases condition with
  | true => cases h
  | false =>
    cases h
    exact ⟨reason, rfl⟩

/-- Checks that do not pass tell what is wrong, or stop the program. -/
theorem isFault_or_crashed_of_validate (h : s.validate = .error e) : IsFault e ∨ e = .crashed := by
  cases hversion : SpecVersion.parse s.specVersion with
  | error e' =>
    simp only [validate, hversion] at h
    cases h
    exact .inl ⟨_, rfl⟩
  | ok version =>
    simp only [validate, hversion] at h
    -- The checks are taken off one by one. Only the two expiries can stop the program.
    obtain hpositive | ⟨_, -, h⟩ := bind_eq_error.1 h
    · exact .inl (isFault_of_require hpositive)
    obtain hordered | ⟨_, -, h⟩ := bind_eq_error.1 h
    · exact .inl (isFault_of_require hordered)
    obtain hparent | ⟨_, -, h⟩ := bind_eq_error.1 h
    · exact isFault_or_crashed_of_expires hparent
    obtain hbin | ⟨_, -, h⟩ := bind_eq_error.1 h
    · exact isFault_or_crashed_of_expires hbin
    obtain hrole | ⟨_, -, h⟩ := bind_eq_error.1 h
    · exact .inl (isFault_of_require hrole)
    · exact .inl (isFault_of_require h)

/-- The checks stop the program at the first lifetime whose end has a local date and none in UTC, if
they get there: behind the checks of the version and of the lengths of the lifetimes. -/
theorem validate_eq_crashed : s.validate = .error .crashed ↔
    (∃ version, SpecVersion.parse s.specVersion = .ok version) ∧ 0 < s.binLifetime.nanoseconds ∧
      s.binLifetime.nanoseconds ≤ s.parentLifetime.nanoseconds ∧
      (s.parentExpires = .error .crashed ∨
        (∃ text, s.parentExpires = .ok text) ∧ s.binExpires = .error .crashed) := by
  have hfault {condition : Bool} {reason : String} : require condition reason ≠ .error .crashed :=
    fun h => not_isFault_crashed (isFault_of_require h)
  cases hversion : SpecVersion.parse s.specVersion with
  | error e' =>
    simp only [validate, hversion]
    refine iff_of_false (fun h => by cases h) ?_
    rintro ⟨⟨version, h⟩, -⟩
    cases h
  | ok version =>
    simp only [validate, hversion]
    constructor
    · intro h
      obtain hpositive | ⟨_, hpositive, h⟩ := bind_eq_error.1 h
      · exact absurd hpositive hfault
      obtain hordered | ⟨_, hordered, h⟩ := bind_eq_error.1 h
      · exact absurd hordered hfault
      have hpositive := require_eq_ok.1 hpositive
      have hordered := of_decide_eq_true (require_eq_ok.1 hordered)
      rw [Bool.and_eq_true, decide_eq_true_eq, decide_eq_true_eq] at hpositive
      refine ⟨⟨version, rfl⟩, hpositive.2, hordered, ?_⟩
      obtain hparent | ⟨text, hparent, h⟩ := bind_eq_error.1 h
      · exact .inl hparent
      obtain hbin | ⟨_, -, h⟩ := bind_eq_error.1 h
      · exact .inr ⟨⟨text, hparent⟩, hbin⟩
      obtain hrole | ⟨_, -, h⟩ := bind_eq_error.1 h
      · exact absurd hrole hfault
      · exact absurd h hfault
    -- The checks before the expiries pass, so the program comes to the lifetime of which it stops.
    · rintro ⟨-, hpositive, hordered, h⟩
      have hboth : (decide (0 < s.parentLifetime.nanoseconds)
          && decide (0 < s.binLifetime.nanoseconds)) = true := by
        rw [Bool.and_eq_true, decide_eq_true_eq, decide_eq_true_eq]
        omega
      refine bind_eq_error.2 (.inr ⟨(), require_eq_ok.2 hboth, ?_⟩)
      refine bind_eq_error.2 (.inr ⟨(), require_eq_ok.2 (decide_eq_true hordered), ?_⟩)
      rcases h with hparent | ⟨⟨text, hparent⟩, hbin⟩
      · exact bind_eq_error.2 (.inl hparent)
      · exact bind_eq_error.2 (.inr ⟨text, hparent, bind_eq_error.2 (.inl hbin)⟩)

end Settings

namespace Graph

variable {settings : Settings} {key : KeyRecord}

/-- Building ends as the checks do. -/
theorem build_eq_error {e : Failure} :
    build settings key = .error e ↔ settings.validate = .error e := by
  refine ⟨fun h => ?_, build_of_error⟩
  cases hvalidate : settings.validate with
  | error e' =>
    cases (build_of_error hvalidate).symm.trans h
    rfl
  | ok _ =>
    obtain ⟨parentExpires, binExpires, hchecked⟩ := Settings.exists_checked_of_validate hvalidate
    obtain ⟨keyId, hkey⟩ := key.exists_keyId
    cases (build_of_checked hvalidate hchecked hkey).symm.trans h

/-- The end of a lifetime is written if it has a date in UTC besides the local one. It is a fault of
the settings if it has no local date, and stops the program if it has a local date alone. The checks
of the settings pass, report a fault, or stop the program, the last exactly if they come to a
lifetime of which the program stops; and building ends as the checks do, for any key. So nothing
stops the program where local time is UTC. -/
theorem ends_of_checks (settings : Settings) (key : KeyRecord) :
    (∀ d, (∃ text, settings.expires d = .ok text) ∧ settings.EndsLocally d ∧ settings.EndsInUtc d ∨
      (∃ e, settings.expires d = .error e ∧ Settings.IsFault e) ∧ ¬ settings.EndsLocally d ∨
      settings.expires d = .error .crashed ∧ settings.EndsLocally d ∧ ¬ settings.EndsInUtc d) ∧
    (∀ e, settings.validate = .error e → Settings.IsFault e ∨ e = .crashed) ∧
    (settings.validate = .error .crashed ↔
      (∃ version, SpecVersion.parse settings.specVersion = .ok version) ∧
        0 < settings.binLifetime.nanoseconds ∧
        settings.binLifetime.nanoseconds ≤ settings.parentLifetime.nanoseconds ∧
        (settings.parentExpires = .error .crashed ∨
          (∃ text, settings.parentExpires = .ok text) ∧ settings.binExpires = .error .crashed)) ∧
    (∀ e, build settings key = .error e ↔ settings.validate = .error e) ∧
    (settings.issuedAt.offset = 0 → (∀ d, settings.expires d ≠ .error .crashed) ∧
      settings.validate ≠ .error .crashed ∧ build settings key ≠ .error .crashed) := by
  refine ⟨fun d => ?_, fun e => Settings.isFault_or_crashed_of_validate,
    Settings.validate_eq_crashed, fun e => build_eq_error, fun hoffset => ?_⟩
  · cases hexpires : settings.expires d with
    | ok text => exact .inl ⟨⟨text, rfl⟩, Settings.exists_expires_eq_ok.1 ⟨text, hexpires⟩⟩
    | error e =>
      rcases Settings.isFault_or_crashed_of_expires hexpires with hfault | rfl
      · refine .inr (.inl ⟨⟨e, rfl, hfault⟩, fun hlocal => ?_⟩)
        rw [Settings.expires_eq, if_pos hlocal] at hexpires
        split at hexpires
        · cases hexpires
        · cases hexpires
          exact Settings.not_isFault_crashed hfault
      · exact .inr (.inr ⟨rfl, Settings.expires_eq_crashed.1 hexpires⟩)
  -- Local time is UTC, so no lifetime ends with a local date alone.
  · have hexpires (d : Lifetime) : settings.expires d ≠ .error .crashed := by
      rw [Ne, Settings.expires_eq_crashed, Settings.endsInUtc_of_offset hoffset]
      exact and_not_self
    have hvalidate : settings.validate ≠ .error .crashed := by
      rw [Ne, Settings.validate_eq_crashed]
      rintro ⟨-, -, -, hparent | ⟨-, hbin⟩⟩
      · exact hexpires _ hparent
      · exact hexpires _ hbin
    exact ⟨hexpires, hvalidate, fun hbuild => hvalidate (build_eq_error.1 hbuild)⟩

end Graph

namespace Sample

/-- The last day of the calendar in a place that is one hour behind UTC. The parent document is to
be valid until half an hour before midnight there, which is half an hour past the last midnight of
UTC. -/
def lastDay : Settings where
  partition := .standard
  issuedAt := ⟨(Calendar.endDay - 1) * nanosPerDay, -3600, by decide +kernel⟩
  parentLifetime := ⟨84600 * nanosPerSecond⟩
  binLifetime := ⟨3600 * nanosPerSecond⟩

end Sample

namespace Graph

/-- In UTC the small delegation is built. An hour behind, on the last day of the calendar, checking
and building stop the program. -/
theorem ends_of_checks_sample : Sample.settings.issuedAt.offset = 0 ∧
    build Sample.settings Sample.key ≠ .error .crashed ∧
    Sample.lastDay.validate = .error .crashed ∧
    build Sample.lastDay Sample.key = .error .crashed := by
  obtain ⟨-, -, -, -, hutc⟩ := ends_of_checks Sample.settings Sample.key
  obtain ⟨-, -, hcrashed, hbuild, -⟩ := ends_of_checks Sample.lastDay Sample.key
  have hoffset : Sample.settings.issuedAt.offset = 0 := rfl
  have hvalidate : Sample.lastDay.validate = .error .crashed :=
    hcrashed.2 ⟨⟨⟨1, 0, 19⟩, by decide +kernel⟩, by decide +kernel, by decide +kernel,
      .inl (by decide +kernel)⟩
  exact ⟨hoffset, (hutc hoffset).2.2, hvalidate, (hbuild _).2 hvalidate⟩

/-- Checking settings whose moment of issue has a local date can stop the program. -/
theorem exists_crashed_check : ∃ settings : Settings, hasDate settings.issuedAt.localNanos ∧
    settings.validate = .error .crashed ∧ settings.parentExpires = .error .crashed ∧
    build settings Sample.key = .error .crashed ∧ ¬ Settings.IsFault .crashed :=
  ⟨Sample.lastDay, Sample.lastDay.issuedAt.localDate, by decide +kernel, by decide +kernel,
    build_of_error (by decide +kernel), Settings.not_isFault_crashed⟩

end Graph

end BinDelegation
