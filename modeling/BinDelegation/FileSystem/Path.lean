import BinDelegation.Text.Pieces

/-! # Paths

A path is text in which slashes separate names. Names are byte strings: a file system may hold names
that are no text, though no path is written with them here.
-/

namespace BinDelegation

/-- The name of a file within its directory. -/
abbrev FileName := List UInt8

/-- A file by the names that lead to it from the topmost directory. -/
abbrev Location := List FileName

/-- One step of a path. -/
inductive PathStep where
  /-- Stays at the place, which is a directory. -/
  | stay
  /-- Goes up to the directory above. -/
  | up
  /-- Goes to the file of a name. -/
  | into (name : FileName)
  /-- A slash at the end: stays as well, and tells that the name before is one of a directory. -/
  | slash
deriving DecidableEq, Repr

namespace Path

/-- The byte of a slash. -/
def slash : UInt8 := 0x2f

/-- The byte of a point. -/
def point : UInt8 := 0x2e

/-- The step that a piece of a path stands for. -/
def step? (piece : List UInt8) : Option PathStep :=
  if piece = [] then none
  else if piece = [point] then some .stay
  else if piece = [point, point] then some .up
  else some (.into piece)

/-- The steps of a path. -/
def steps (path : List UInt8) : List PathStep :=
  (pieces slash path).filterMap step? ++ if path.getLast? = some slash then [.slash] else []

/-- Whether a path starts at the topmost directory. -/
def isAbsolute (path : List UInt8) : Bool := path.head? = some slash

/-- The bytes of a path. -/
def bytes (path : String) : List UInt8 := path.toUTF8.data.toList

/-- The path of a name within a directory. -/
def join (directory name : String) : String :=
  if directory = "" || directory.endsWith "/" then directory ++ name
  else directory ++ "/" ++ name

/-- The path of several names, each within the one before. -/
def joinAll (directory : String) (names : List String) : String := names.foldl join directory

/-- Drops trailing pieces of a path that name nothing: slashes, and points behind a slash. The path
is given back to front. -/
def dropEmptyEnd : List Char → List Char
  | '/' :: rest => dropEmptyEnd rest
  | '.' :: '/' :: rest => dropEmptyEnd rest
  | path => path

/-- The path of the directory above, unless the path is empty or the topmost directory. The
directory above a lone name is the empty path. -/
def parent? (path : String) : Option String :=
  match dropEmptyEnd path.toList.reverse with
  | [] => none
  | named =>
    match named.dropWhile (· ≠ '/') with
    | [] => some ""
    | above =>
      match dropEmptyEnd above with
      | [] => some "/"
      | above => some (String.ofList above.reverse)

/-- The bytes of a file name before and after its last point, if there is a point behind the first
byte. -/
def stemAndExtension? (name : FileName) : Option (FileName × FileName) :=
  let extension := (name.reverse.takeWhile (· ≠ point)).reverse
  let stem := name.take (name.length - extension.length - 1)
  if extension.length < name.length ∧ stem ≠ [] then some (stem, extension) else none

end Path

end BinDelegation
