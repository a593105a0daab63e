import BinDelegation.Assignment
import BinDelegation.Bin
import BinDelegation.CommandLine.Report

/-! # Commands that show bins -/

namespace BinDelegation

/-- The bins of a partition as a report: names and hash prefixes in columns. -/
def Partition.report (p : Partition) : Report where
  json :=
    .object [("count", .count p.count), ("prefix_len", .count p.width),
      ("bin_size", .natural p.binSize),
      ("bins", .array (p.bins.map fun b =>
        .object [("name", .string b.name), ("low", .natural b.low), ("high", .natural b.high),
          ("prefixes", .strings b.hashPrefixes)]))]
  lines :=
    let width := (p.bins.map (·.name.length)).foldl max 0
    p.bins.map fun b =>
      b.name ++ String.ofList (List.replicate (width - b.name.length) ' ') ++ "  "
        ++ " ".intercalate b.hashPrefixes

/-- Where a path belongs: its hash prefix and the bin of that. -/
structure Placement where
  path : String
  hashPrefix : String
  bin : String
deriving DecidableEq, Repr

/-- Places a path. The empty path has no place. -/
def Partition.place (p : Partition) (path : String) : Except Refusal Placement := do
  if path = "" then throw (.told "target path must not be empty" none)
  match p.pathPrefix path with
  | .ok value => return ⟨path, p.prefixText value, p.binForPrefix value⟩
  | .error e => throw (.ofError e)

/-- Places as a report. -/
def Placement.report (placements : List Placement) : Report where
  json :=
    .array (placements.map fun a =>
      .object [("path", .string a.path), ("prefix", .string a.hashPrefix), ("bin", .string a.bin)])
  lines := placements.map fun a => a.bin ++ "\t" ++ a.hashPrefix ++ "\t" ++ a.path

/-- A number of bins, where one that cannot be used is a refusal. -/
def CommandTask.partition (count : Nat) : CommandTask Partition :=
  CommandTask.ofExcept .ofError (Partition.ofCount count)

/-- Shows the bins. -/
def Command.showBins (asJson : Bool) (count : Nat) : CommandTask Outcome :=
  return (← CommandTask.partition count).report.outcome asJson

/-- Shows the bin of each path. -/
def Command.showAssignment (asJson : Bool) (count : Nat) (paths : List String) :
    CommandTask Outcome := do
  let p ← CommandTask.partition count
  let placements ← CommandTask.ofExcept id (paths.mapM p.place)
  return (Placement.report placements).outcome asJson

end BinDelegation
