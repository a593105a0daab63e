import BinDelegation.Bin
import BinDelegation.RoleName
import BinDelegation.SpecVersion
import BinDelegation.Timestamp

/-! # Settings of a delegation

Everything that the documents of a delegation are built from, the moment of issue included: nothing
is taken from a clock. Settings are checked before any document is built.
-/

namespace BinDelegation

/-- What a delegation is built from. -/
structure Settings where
  partition : Partition
  /-- The version of the metadata format, written into every document. -/
  specVersion : String := SpecVersion.standard
  /-- The moment of issue, from which lifetimes count. -/
  issuedAt : Timestamp
  /-- How long the parent document is valid. -/
  parentLifetime : Lifetime := .days 365
  /-- How long the bin documents are valid. -/
  binLifetime : Lifetime := .days 7
  /-- The role of the parent document. -/
  parentRole : String := "bins"

namespace Settings

/-- The moment at which a lifetime ends. -/
def expiry (s : Settings) (d : Lifetime) : Except Error Timestamp :=
  match s.issuedAt.after? d with
  | some t => .ok t
  | none =>
    .error (.invalidConfiguration ("expiry " ++ toString d.wholeDays ++ " days after "
      ++ s.issuedAt.localText ++ " is out of range"))

/-- The text of the moment at which a lifetime ends. A moment with a local date but none in UTC
cannot be written, and stops the program. -/
def expires (s : Settings) (d : Lifetime) : Except Failure String :=
  match s.expiry d with
  | .error e => .error (.reported e)
  | .ok t =>
    match t.expiryText? with
    | some text => .ok text
    | none => .error .crashed

/-- When the parent document expires. -/
def parentExpires (s : Settings) : Except Failure String := s.expires s.parentLifetime

/-- When the bin documents expire. -/
def binExpires (s : Settings) : Except Failure String := s.expires s.binLifetime

/-- Refuses settings with a message unless a condition holds. -/
def require (condition : Bool) (reason : String) : Except Failure Unit :=
  if condition then .ok () else .error (.reported (.invalidConfiguration reason))

/-- Checks settings: the version, the lifetimes, the moments they end at, and the parent's role,
which must be a role name and must not be the name of a bin. The first fault is reported. -/
def validate (s : Settings) : Except Failure Unit := do
  match SpecVersion.parse s.specVersion with
  | .ok _ => pure ()
  | .error e => throw (.reported (.invalidConfiguration e.message))
  require (0 < s.parentLifetime.nanoseconds && 0 < s.binLifetime.nanoseconds)
    "expiries must be positive"
  require (s.binLifetime.nanoseconds ≤ s.parentLifetime.nanoseconds)
    "bin expiry must not exceed parent expiry"
  let _ ← s.parentExpires
  let _ ← s.binExpires
  require (RoleName.isValid s.parentRole)
    ("invalid parent role name " ++ Quoted.text s.parentRole)
  require (!s.partition.isBinName s.parentRole)
    ("parent role name " ++ Quoted.text s.parentRole ++ " collides with a bin name")

end Settings

end BinDelegation
