import BinDelegation.FileSystem.Action
import BinDelegation.KeyPair
import BinDelegation.Timestamp

/-! # The world of the command line

Commands work with files, make keys from chance and read a clock. They end with an outcome for the
caller: two texts and an exit code.
-/

namespace BinDelegation

/-- What a command asks of the world. -/
inductive WorldAction where
  /-- A file operation. -/
  | file (action : FileAction)
  /-- A seed that nobody can guess. -/
  | newSeed
  /-- The time. -/
  | now

/-- The world of the command line, by what can be asked of it. -/
abbrev world : Interface where
  Action := WorldAction
  Answer
    | .file action => Except FileError action.Result
    | .newSeed => Ed25519.Bytes32
    | .now => Timestamp

/-- How a command ends for its caller. -/
structure Outcome where
  exitCode : UInt32 := 0
  /-- The text of the standard output. -/
  out : String := ""
  /-- The text of the standard error output. -/
  err : String := ""
deriving DecidableEq, Repr

/-- Why a command breaks off. -/
inductive Refusal where
  /-- The caller is told why, and what caused it. -/
  | told (message : String) (cause : Option String)
  /-- The whole program stops. -/
  | crashed
deriving DecidableEq, Repr

namespace Refusal

/-- An error of the library, which has no cause but itself. -/
def ofError (e : Error) : Refusal := .told e.message none

/-- A failure of the library. -/
def ofFailure : Failure → Refusal
  | .reported e => .ofError e
  | .crashed => .crashed

/-- A failed file operation, told as what it was to do. -/
def ofFileError (message : String) (e : FileError) : Refusal := .told message (some e.message)

/-- The text of an error message. -/
def text (message : String) : Option String → String
  | none => "Error: " ++ message ++ "\n"
  | some cause => "Error: " ++ message ++ "\n\nCaused by:\n    " ++ cause ++ "\n"

/-- The outcome of a command that breaks off. -/
def outcome : Refusal → Outcome
  | .told message cause => { exitCode := 1, err := text message cause }
  | .crashed => { exitCode := 101 }

end Refusal

/-- What a command does, up to a result or a refusal. -/
abbrev CommandTask (α : Type) := ExceptT Refusal (Program world) α

namespace CommandTask

variable {α : Type}

/-- File operations. -/
def onFiles (p : Program files α) : CommandTask α :=
  ExceptT.lift (p.run fun action => Program.perform (I := world) (.file action))

/-- A result at hand, where an error is a refusal. -/
def ofExcept {ε : Type} (refusal : ε → Refusal) : Except ε α → CommandTask α
  | .ok a => pure a
  | .error e => throw (refusal e)

/-- File operations, where an error is a refusal. -/
def onFilesOr {ε : Type} (refusal : ε → Refusal) (p : Program files (Except ε α)) :
    CommandTask α := do
  ofExcept refusal (← onFiles p)

/-- One file operation, where an error is a refusal. -/
def operate (refusal : FileError → Refusal) (action : FileAction) : CommandTask action.Result :=
  onFilesOr refusal (Program.perform (I := files) action)

/-- A key pair that is new. -/
def newKeyPair : CommandTask KeyPair :=
  return ⟨← ExceptT.lift (Program.perform (I := world) .newSeed)⟩

/-- The time. -/
def now : CommandTask Timestamp := ExceptT.lift (Program.perform (I := world) .now)

end CommandTask

end BinDelegation
