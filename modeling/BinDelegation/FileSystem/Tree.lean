import BinDelegation.Bytes
import BinDelegation.Dict
import BinDelegation.FileSystem.FileError
import BinDelegation.FileSystem.Path

/-! # File trees

A tree of files, directories and symbolic links, as far as one process sees it when nobody else
works on it and neither space nor permission ever lacks. A path is followed from the working
directory name by name; a symbolic link on the way is followed too.

Every name stands for a file of its own. A second name of one file, through which a change of the
content under the one is a change under the other, has no place in such a tree.
-/

namespace BinDelegation

/-- What stands at a place in a file tree. -/
inductive FileNode where
  | file (content : ByteArray)
  | directory
  /-- A symbolic link and the path written in it. -/
  | link (path : List UInt8)
deriving DecidableEq

/-- The kinds of what stands at a place. -/
inductive FileKind where
  | file
  | directory
  | link
  /-- A device, a pipe and the like, which no file tree holds. -/
  | special
deriving DecidableEq, Repr

/-- The kind of what stands at a place. -/
def FileNode.kind : FileNode → FileKind
  | file _ => .file
  | directory => .directory
  | link _ => .link

/-- A file tree and a working directory in it. -/
structure FileTree where
  /-- What stands where, below the topmost directory. -/
  nodes : Dict Location FileNode := .empty
  workingDirectory : Location := []

namespace FileTree

/-- The greatest length of a name in bytes. -/
def maxNameLength : Nat := 255

/-- The greatest length of a path in bytes. -/
def maxPathLength : Nat := 4095

/-- The greatest number of symbolic links on one way. -/
def maxLinks : Nat := 40

/-- What stands at a place. -/
def node? (t : FileTree) (place : Location) : Option FileNode :=
  if place = [] then some .directory else t.nodes.get? place

/-- What a path is followed for. -/
inductive Approach where
  /-- For what stands at its end, behind symbolic links. -/
  | through
  /-- For what stands at its end, and be it a symbolic link. -/
  | upTo
  /-- For a place to put a file, behind symbolic links. -/
  | toFile
  /-- For a place to put a directory. -/
  | toDirectory
deriving DecidableEq, Repr

namespace Approach

/-- Whether a symbolic link at the end is followed. -/
def followsLast : Approach → Bool
  | through | toFile => true
  | upTo | toDirectory => false

/-- Whether a name is the last one of a path, with `rest` behind it. Only a directory may be put
at a name with a slash behind it. -/
def isLast (approach : Approach) (rest : List PathStep) : Bool :=
  rest.isEmpty || approach = toDirectory && rest = [.slash]

end Approach

/-- How far a path leads without following a symbolic link. -/
inductive Stage where
  /-- To its end. -/
  | arrived (place : Location)
  /-- To a symbolic link in a directory, behind which there may be further steps. -/
  | atLink (directory : Location) (path : List UInt8) (rest : List PathStep)

/-- Follows steps from a place to their end or to a symbolic link. Only at the last name may there
be nothing, and no file is put at a name with a slash behind it. -/
def advance (t : FileTree) (approach : Approach) (place : Location) :
    List PathStep → Except FileError Stage
  | [] => .ok (.arrived place)
  | .stay :: rest | .slash :: rest => t.advance approach place rest
  | .up :: rest => t.advance approach place.dropLast rest
  | .into name :: rest =>
    if approach = .toFile ∧ rest = [.slash] then .error .isADirectory
    else if maxNameLength < name.length then .error .nameTooLong
    else
      let next := place ++ [name]
      let isLast := approach.isLast rest
      match t.node? next with
      | none => if isLast then .ok (.arrived next) else .error .notFound
      | some .directory => t.advance approach next rest
      | some (.file _) => if isLast then .ok (.arrived next) else .error .notADirectory
      | some (.link path) =>
        if isLast && !approach.followsLast then .ok (.arrived next)
        else .ok (.atLink place path rest)

/-- The directory that a path starts from. -/
def start (path : List UInt8) (directory : Location) : Location :=
  if Path.isAbsolute path then [] else directory

/-- Follows steps from a place to their end, through at most `links` symbolic links. -/
def follow (t : FileTree) (approach : Approach) :
    (links : Nat) → Location → List PathStep → Except FileError Location
  | links, place, steps => do
    match ← t.advance approach place steps with
    | .arrived found => return found
    | .atLink directory path rest =>
      match links with
      | 0 => throw .tooManyLinks
      | links + 1 => t.follow approach links (start path directory) (Path.steps path ++ rest)

/-- The place that a path leads to, in a directory that exists. -/
def locate (t : FileTree) (approach : Approach) (path : String) : Except FileError Location :=
  let path := Path.bytes path
  if path.contains 0 then .error .zeroByte
  else if path = [] then .error .notFound
  else if maxPathLength < path.length then .error .nameTooLong
  else t.follow approach maxLinks (start path t.workingDirectory) (Path.steps path)

/-- The place that a path leads to, and what stands there. -/
def find (t : FileTree) (approach : Approach) (path : String) :
    Except FileError (Location × FileNode) := do
  let place ← t.locate approach path
  match t.node? place with
  | some node => return (place, node)
  | none => throw .notFound

/-- The tree with something at a place, over what stood there. -/
def put (t : FileTree) (place : Location) (node : FileNode) : FileTree :=
  { t with nodes := t.nodes.insert place node }

/-- The tree with nothing at a place. -/
def clear (t : FileTree) (place : Location) : FileTree := { t with nodes := t.nodes.erase place }

/-- What stands below a place, by the names that lead there from it. -/
def below (t : FileTree) (place : Location) : List (Location × FileNode) :=
  t.nodes.entries.filterMap fun (at_, node) =>
    if place.isPrefixOf at_ ∧ at_ ≠ place then some (at_.drop place.length, node) else none

/-- The path from a place to something below it, with a slash at the end if that is a directory. -/
def pathBelow : Location × FileNode → List UInt8
  | (names, node) =>
    (names.intersperse [Path.slash]).flatten ++ if node = .directory then [Path.slash] else []

/-- The paths of all that stands below a place, in byte order. -/
def listing (t : FileTree) (place : Location) : List (List UInt8) :=
  ((t.below place).map pathBelow).mergeSort (· ≤ ·)

/-! ## Operations -/

/-- What a path leads to, symbolic links followed. -/
def kind (t : FileTree) (path : String) : Except FileError FileKind :=
  return (← t.find .through path).2.kind

/-- The content of a file. -/
def read (t : FileTree) (path : String) : Except FileError ByteArray := do
  match (← t.find .through path).2 with
  | .file content => return content
  | .directory => throw .isADirectory
  | .link _ => throw .tooManyLinks

/-- Makes a file empty, and makes it first if there is none. -/
def create (t : FileTree) (path : String) : Except FileError FileTree := do
  let place ← t.locate .toFile path
  match t.node? place with
  | some .directory => throw .isADirectory
  | _ => return t.put place (.file .empty)

/-- Fills a file that there is. -/
def write (t : FileTree) (path : String) (content : ByteArray) : Except FileError FileTree := do
  match ← t.find .through path with
  | (place, .file _) => return t.put place (.file content)
  | _ => throw .isADirectory

/-- Moves a file or a symbolic link, over a file or a symbolic link that stood at the other place.
Directories are not moved. -/
def rename (t : FileTree) (source target : String) : Except FileError FileTree := do
  let (place, node) ← t.find .upTo source
  let goal ← t.locate .upTo target
  match node, t.node? goal with
  | .directory, _ => throw .invalidArgument
  | _, some .directory => throw .isADirectory
  | node, _ => return (t.clear place).put goal node

/-- Removes a file or a symbolic link. -/
def remove (t : FileTree) (path : String) : Except FileError FileTree := do
  match ← t.find .upTo path with
  | (_, .directory) => throw .isADirectory
  | (place, _) => return t.clear place

/-- Makes a directory in a directory that there is. -/
def makeDirectory (t : FileTree) (path : String) : Except FileError FileTree := do
  let place ← t.locate .toDirectory path
  match t.node? place with
  | some _ => throw .alreadyExists
  | none => return t.put place .directory

/-- Makes a symbolic link where nothing stands. -/
def makeLink (t : FileTree) (path target : String) : Except FileError FileTree := do
  let place ← t.locate .upTo path
  match t.node? place with
  | some _ => throw .alreadyExists
  | none => return t.put place (.link (Path.bytes target))

/-- Removes what a path leads to, and all that stands below it. -/
def removeAll (t : FileTree) (path : String) : Except FileError FileTree := do
  let (place, _) ← t.find .upTo path
  return (t.below place).foldl (fun t found => t.clear (place ++ found.1)) (t.clear place)

/-- What a path leads to and all that stands below it, by the names that lead there from it, with
their kinds. A symbolic link is followed only if it is the path itself, and then shown as a link.
With `levels`, what stands further below is left out. -/
def walk (t : FileTree) (path : String) (levels : Option Nat) :
    Except FileError (List (Location × FileKind)) := do
  let (_, node) ← t.find .upTo path
  let (place, _) ← t.find .through path
  let below := (t.below place).map fun (names, node) => (names, node.kind)
  let near := match levels with
    | none => below
    | some n => below.filter (·.1.length ≤ n)
  return ([], node.kind) :: near

end FileTree

end BinDelegation
