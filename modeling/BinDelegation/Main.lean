import BinDelegation.CommandLine.Run
import Std.Time.DateTime.Timestamp

/-! # The program

Lends the real world to the command line: the file system, the clock and chance.
-/

namespace BinDelegation

/-- The number of a system error. Some operations hand it over with its sign turned. -/
def errorNumber (code : UInt32) : Nat := code.toInt32.toInt.natAbs

/-- An error of the system as an error of a file operation. -/
def FileError.ofSystem (e : IO.Error) : FileError :=
  match e with
  | .alreadyExists _ code reason | .invalidArgument _ code reason
  | .permissionDenied _ code reason | .resourceExhausted _ code reason
  | .inappropriateType _ code reason | .noSuchThing _ code reason =>
    ofCode (errorNumber code) reason
  | .interrupted _ code reason | .noFileOrDirectory _ code reason =>
    ofCode (errorNumber code) reason
  | .otherError code reason | .resourceBusy code reason | .resourceVanished code reason
  | .unsupportedOperation code reason | .hardwareFault code reason
  | .unsatisfiedConstraints code reason | .illegalOperation code reason
  | .protocolError code reason | .timeExpired code reason =>
    ofCode (errorNumber code) reason
  | .unexpectedEof => other 0 "unexpected end of file"
  | .userError reason => other 0 reason

/-- The answer of a file operation that may fail. -/
def attempted {α : Type} (action : IO α) : IO (Except FileError α) := do
  match ← action.toBaseIO with
  | .ok a => return .ok a
  | .error e => return .error (.ofSystem e)

/-- The kind of what the system found. -/
def FileKind.ofSystem : IO.FS.FileType → FileKind
  | .dir => .directory
  | .file => .file
  | .symlink => .link
  | .other => .special

/-- A path as the system takes it. -/
def located (path : String) : IO.FS.DirEntry := { root := path, fileName := "" }

/-- What stands below a directory, by the names that lead there from it, in the order of names. -/
partial def entriesBelow (levels : Option Nat) (directory : IO.FS.DirEntry) (above : Location) :
    IO (List (Location × FileKind)) := do
  if levels = some above.length then return []
  let entries ← directory.root.readDir
  let entries := entries.toList.mergeSort fun a b => decide (a.fileName ≤ b.fileName)
  let found ← entries.mapM fun entry => do
    let names := above ++ [Path.bytes entry.fileName]
    let kind := FileKind.ofSystem (← entry.path.symlinkMetadata).type
    let further ←
      if kind = .directory then entriesBelow levels { root := entry.path, fileName := "" } names
      else pure []
    return (names, kind) :: further
  return found.flatten

/-- What a path leads to and all that stands below it. -/
def entriesAt (path : String) (levels : Option Nat) : IO (List (Location × FileKind)) := do
  let directory := located path
  let kind := FileKind.ofSystem (← directory.root.symlinkMetadata).type
  let further ←
    match (← directory.root.metadata).type with
    | .dir => entriesBelow levels directory []
    | _ => pure []
  return ([], kind) :: further

/-- Does a file operation. -/
def performFile : (action : FileAction) → IO (Except FileError action.Result)
  | .kind path => attempted do return .ofSystem (← (located path).root.metadata).type
  | .read path => attempted (IO.FS.readBinFile path)
  | .create path => attempted (IO.FS.writeBinFile path .empty)
  | .write path content => attempted (IO.FS.writeBinFile path content)
  | .rename source target => attempted (IO.FS.rename source target)
  | .remove path => attempted (IO.FS.removeFile path)
  | .makeDirectory path => attempted (IO.FS.createDir path)
  | .walk path levels => attempted (entriesAt path levels)

/-- Takes a seed from chance. -/
def drawSeed : IO Ed25519.Bytes32 := do
  let bytes ← IO.getRandomBytes 32
  if h : bytes.data.size = 32 then return ⟨bytes.data, h⟩
  else throw (IO.userError "no random bytes")

/-- Reads the clock. -/
def readClock : IO Timestamp := do
  let now ← Std.Time.Timestamp.now
  match Timestamp.ofEpoch? now.toNanosecondsSinceUnixEpoch.val with
  | some t => return t
  | none => throw (IO.userError "the clock is out of range")

/-- Does what a command asks of the world. -/
def performReal : (action : WorldAction) → IO (world.Answer action)
  | .file action => performFile action
  | .newSeed => drawSeed
  | .now => readClock

end BinDelegation

open BinDelegation in
def main (words : List String) : IO UInt32 := do
  let outcome ← (runArguments words).run performReal
  IO.print outcome.out
  IO.eprint outcome.err
  return outcome.exitCode
