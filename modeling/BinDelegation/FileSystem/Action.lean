import BinDelegation.FileSystem.Tree
import BinDelegation.Program

/-! # File actions

The operations that programs ask of a file system, each a step of its own: between any two of them a
program can be stopped. A file tree answers them all.
-/

namespace BinDelegation

/-- An operation of a file system. -/
inductive FileAction where
  /-- Tells what a path leads to, symbolic links followed. -/
  | kind (path : String)
  /-- Reads a file. -/
  | read (path : String)
  /-- Makes a file empty, and makes it first if there is none. -/
  | create (path : String)
  /-- Fills a file that there is. -/
  | write (path : String) (content : ByteArray)
  /-- Moves a file, over one that stood at the other place. -/
  | rename (source target : String)
  /-- Removes a file. -/
  | remove (path : String)
  /-- Makes a directory. -/
  | makeDirectory (path : String)
  /-- Tells what stands at a path and below it, down to a number of levels. -/
  | walk (path : String) (levels : Option Nat)
deriving DecidableEq

/-- The result that an operation has unless it fails. -/
abbrev FileAction.Result : FileAction → Type
  | kind _ => FileKind
  | read _ => ByteArray
  | walk _ _ => List (Location × FileKind)
  | create _ | write _ _ | rename _ _ | remove _ | makeDirectory _ => Unit

/-- File systems, by their operations. -/
abbrev files : Interface where
  Action := FileAction
  Answer action := Except FileError action.Result

namespace FileTree

/-- The tree after an operation, which is the tree before it if the operation fails. -/
def after (t : FileTree) : Except FileError FileTree → Except FileError Unit × FileTree
  | .ok changed => (.ok (), changed)
  | .error e => (.error e, t)

/-- Does what a program asks of a file system. -/
def perform : (action : FileAction) → StateM FileTree (Except FileError action.Result)
  | .kind path => fun t => (t.kind path, t)
  | .read path => fun t => (t.read path, t)
  | .create path => fun t => t.after (t.create path)
  | .write path content => fun t => t.after (t.write path content)
  | .rename source target => fun t => t.after (t.rename source target)
  | .remove path => fun t => t.after (t.remove path)
  | .makeDirectory path => fun t => t.after (t.makeDirectory path)
  | .walk path levels => fun t => (t.walk path levels, t)

end FileTree

/-- Whether a path leads to anything. -/
def pathExists (path : String) : Program files Bool :=
  return (← Program.perform (I := files) (.kind path)).isOk

/-- Whether a path leads to a directory. -/
def pathIsDirectory (path : String) : Program files Bool := do
  match ← Program.perform (I := files) (.kind path) with
  | .ok .directory => return true
  | _ => return false

/-- A directory's path, the one above it, and so on, at most `more` of them. -/
def Path.upward : (more : Nat) → String → List String
  | 0, path => [path]
  | more + 1, path =>
    path :: match Path.parent? path with
      | some above => upward more above
      | none => []

/-- Makes a directory unless there is one. -/
def makeOneDirectory (path : String) : Program files (Except FileError Unit) := do
  match ← Program.perform (I := files) (.makeDirectory path) with
  | .ok () => return .ok ()
  | .error e => if ← pathIsDirectory path then return .ok () else return .error e

/-- Makes a directory, given with those above it, unless there is one, and first makes the one above
it if that is missing. The empty path stands for the working directory. -/
def makeDirectoriesAlong : List String → Program files (Except FileError Unit)
  | [] => return .ok ()
  | path :: above =>
    if path = "" then return .ok ()
    else do
      match ← makeOneDirectory path with
      | .error .notFound =>
        match ← makeDirectoriesAlong above with
        | .ok () => makeOneDirectory path
        | .error e => return .error e
      | answer => return answer

/-- Makes a directory and those above it, as far as they are missing. -/
def makeDirectories (path : String) : Program files (Except FileError Unit) :=
  makeDirectoriesAlong (Path.upward path.length path)

end BinDelegation
