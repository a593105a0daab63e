import BinDelegation.CommandLine.World
import BinDelegation.Json.Writer

/-! # Reports

What a command has to tell is written as lines for a person or as one JSON value for a program.
-/

namespace BinDelegation

/-- What a command has to tell, in both forms. -/
structure Report where
  json : Json
  lines : List String

/-- The text of a report. -/
def Report.text (r : Report) (asJson : Bool) : String :=
  if asJson then r.json.pretty ++ "\n" else String.join (r.lines.map (· ++ "\n"))

/-- The outcome of a command that has done what it was asked to. -/
def Report.outcome (r : Report) (asJson : Bool) : Outcome := { out := r.text asJson }

/-- A count as JSON. -/
def Json.count (n : Nat) : Json := .natural (UInt64.ofNat n)

end BinDelegation
