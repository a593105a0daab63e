import BinDelegation.Calendar

/-! # Timestamps and lifetimes

A timestamp is a local date and time of day, to the nanosecond, with an offset from UTC. Expiries
are written in UTC to the second, rounded down. A moment that has no date in the calendar cannot be
written: a local date in the first or last year may have none in UTC.
-/

namespace BinDelegation

/-- Nanoseconds in a second. -/
def nanosPerSecond : Int := 1000000000

/-- Seconds in a day. -/
def secondsPerDay : Int := 86400

/-- Nanoseconds in a day. -/
def nanosPerDay : Int := secondsPerDay * nanosPerSecond

/-- A span of time, of either sign. -/
structure Lifetime where
  nanoseconds : Int
deriving DecidableEq, Repr

namespace Lifetime

/-- A span of whole days. -/
def days (n : Int) : Lifetime := ⟨n * nanosPerDay⟩

/-- The whole days in a span, rounded toward zero. -/
def wholeDays (d : Lifetime) : Int := d.nanoseconds.tdiv nanosPerDay

end Lifetime

/-- Whether a number of nanoseconds since the first of January of the year 1 has a date. -/
def hasDate (nanos : Int) : Prop :=
  Calendar.firstDay * nanosPerDay ≤ nanos ∧ nanos < Calendar.endDay * nanosPerDay

instance (nanos : Int) : Decidable (hasDate nanos) :=
  inferInstanceAs (Decidable (_ ∧ _))

/-- A moment, as the local date and time of a place and its offset from UTC. -/
structure Timestamp where
  /-- Nanoseconds of local time since the first of January of the year 1. -/
  localNanos : Int
  /-- Seconds by which local time is ahead of UTC. -/
  offset : Int
  /-- The local date is in the calendar. -/
  localDate : hasDate localNanos

namespace Timestamp

/-- The timestamp of a local date, the nanoseconds since its midnight, and an offset. -/
def of? (date : Calendar.Date) (nanosOfDay offset : Int) : Option Timestamp :=
  let nanos := Calendar.dayOfDate date * nanosPerDay + nanosOfDay
  if Calendar.isDate date && 0 ≤ nanosOfDay && nanosOfDay < nanosPerDay then
    if h : hasDate nanos then some ⟨nanos, offset, h⟩ else none
  else none

/-- The moment a lifetime later, if its local date is still in the calendar. -/
def after? (t : Timestamp) (d : Lifetime) : Option Timestamp :=
  if h : hasDate (t.localNanos + d.nanoseconds) then some ⟨_, t.offset, h⟩ else none

/-- The timestamp in UTC of a moment given in nanoseconds since the first of January of the year
1970. -/
def ofEpoch? (nanos : Int) : Option Timestamp := of? ⟨1970, 1, 1⟩ 0 0 |>.bind (after? · ⟨nanos⟩)

/-- The moment in nanoseconds of UTC since the first of January of the year 1. -/
def utcNanos (t : Timestamp) : Int := t.localNanos - t.offset * nanosPerSecond

open Calendar Digits in
/-- A second of UTC since the first of January of the year 1 as `YYYY-MM-DDTHH:MM:SSZ`. -/
def secondText (second : Int) : String :=
  let date := dateOfDay (second / secondsPerDay)
  let time := (second % secondsPerDay).toNat
  String.ofList (date.text ++ 'T' :: padded 2 (time / 3600) ++ ':' :: padded 2 (time / 60 % 60)
    ++ ':' :: padded 2 (time % 60) ++ ['Z'])

/-- The year that a text denotes, of at least four digits. -/
def yearOfText? (text : List Char) : Option Int :=
  match text with
  | '-' :: digits => if digits.length < 4 then none else (Digits.number? digits).map fun n => -n
  | digits => if digits.length < 4 then none else (Digits.number? digits).map fun n => n

/-- The second of UTC that a text `YYYY-MM-DDTHH:MM:SSZ` denotes. -/
def secondOfText? (s : String) : Option Int :=
  let text := s.toList
  let yearLength := text.length - 16
  match text.drop yearLength with
  | ['-', m, m', '-', d, d', 'T', h, h', ':', n, n', ':', s, s', 'Z'] => do
    let date : Calendar.Date :=
      ⟨← yearOfText? (text.take yearLength), ← Digits.number? [m, m'], ← Digits.number? [d, d']⟩
    let hour ← Digits.number? [h, h']
    let minute ← Digits.number? [n, n']
    let second ← Digits.number? [s, s']
    if Calendar.isDate date ∧ hour < 24 ∧ minute < 60 ∧ second < 60 then
      some (Calendar.dayOfDate date * secondsPerDay + ((hour * 60 + minute) * 60 + second : Nat))
    else none
  | _ => none

/-- The moment in UTC, rounded down to a second, unless it has no date there. -/
def expiryText? (t : Timestamp) : Option String :=
  if hasDate t.utcNanos then some (secondText (t.utcNanos / nanosPerSecond)) else none

/-- The digits of a fraction of a second without zeros at the end, but at least one. -/
def fractionText (nanos : Nat) : List Char :=
  match ((Digits.padded 9 nanos).reverse.dropWhile (· = '0')).reverse with
  | [] => ['0']
  | digits => digits

open Calendar Digits in
/-- An offset from UTC as text. -/
def offsetText (offset : Int) : List Char :=
  let n := offset.natAbs
  (if offset < 0 then '-' else '+') :: padded 2 (n / 3600) ++ ':' :: padded 2 (n / 60 % 60)
    ++ ':' :: padded 2 (n % 60)

open Calendar Digits in
/-- The local date and time with its fraction and the offset. -/
def localText (t : Timestamp) : String :=
  let date := dateOfDay (t.localNanos / nanosPerDay)
  let nanos := (t.localNanos % nanosPerDay).toNat
  let time := nanos / 1000000000
  String.ofList (date.text ++ ' ' :: Digits.ofNat (time / 3600)
    ++ ':' :: padded 2 (time / 60 % 60) ++ ':' :: padded 2 (time % 60)
    ++ '.' :: fractionText (nanos % 1000000000) ++ ' ' :: offsetText t.offset)

end Timestamp

end BinDelegation
