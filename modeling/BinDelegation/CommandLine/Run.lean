import BinDelegation.CommandLine.Build
import BinDelegation.CommandLine.KeyGeneration

/-! # Running the command line -/

namespace BinDelegation

/-- The program's name and version. -/
def versionText : String := "hashbin 0.1.0"

namespace Command

/-- What a command does. -/
def task (asJson : Bool) : Command → CommandTask Outcome
  | keygen out force => makeKeys asJson out force
  | bins count => showBins asJson count
  | assign count paths => showAssignment asJson count paths
  | build options => buildDelegation asJson options

/-- Runs a command to its outcome. -/
def outcome (asJson : Bool) (c : Command) : Program world Outcome := do
  match ← (c.task asJson).run with
  | .ok outcome => return outcome
  | .error refusal => return refusal.outcome

end Command

/-- The outcome of arguments that ask for nothing known. -/
def usageOutcome : Outcome where
  exitCode := 2
  err := "error: the arguments are not understood\n"

/-- Does what the words behind the program's name ask for. -/
def runArguments (words : List String) : Program world Outcome :=
  match Request.ofArguments? words with
  | none => pure usageOutcome
  | some .version => pure { out := versionText ++ "\n" }
  | some (.run asJson command) => command.outcome asJson

end BinDelegation
