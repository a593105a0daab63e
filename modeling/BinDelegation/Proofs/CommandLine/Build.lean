import BinDelegation.Proofs.CommandLine.Preparing
import BinDelegation.Proofs.Store.Arrivals

/-!
# Building a delegation

A build that succeeds has written a delegation of exactly the regular files below its directory of
targets. One that breaks off before the directory of documents is opened has written nothing.

The stages have been told apart before: what is prepared and from what (`PreparedFrom`), how
documents are published, in order or at once, and what is read in a directory when all of them have
arrived. Here they are put together (`PreparedFrom.exists_delivered`): the documents that can be
read are those of a run that has filed the targets, so they delegate just these, and each target is
in the bin that the command for single paths tells.

A build may go in two ways (`Command.Builds`): as the command is written, where the documents are
published one after the other, or with all of them published at once, in any interleaving of their
file operations. In both, file operations may fail at any time.

The directory of documents must be free of links under the names of drafts, and the way there must
not need a link that a document replaces (`Unobstructed`). Two file trees at the end break one of
these each.
-/

namespace BinDelegation

open FileTree (Attempt WorldAttempt)
open DirectoryStore (fileName draftName)

variable {moment : Timestamp} {t t' : FileTree} {asJson : Bool} {outcome : Outcome}

/-! ## Outcomes -/

namespace BuildOptions

variable {o : BuildOptions} {b : Prepared} {p : Partition} {home : Location}
  {files : List (List String × ByteArray)}

end BuildOptions

/-! ## Builds -/

namespace Command.Sample

/-- A directory of targets with one file, and an empty directory. -/
def tree : FileTree :=
  ((FileTree.put {} [Path.bytes "t"] .directory).put [Path.bytes "t", Path.bytes "a"]
    (.file "hello".toUTF8)).put [Path.bytes "m"] .directory

/-- The place of the empty directory. -/
def place : Location := [Path.bytes "m"]

/-- Options for one bin and fresh keys. -/
def options : BuildOptions where
  count := 1
  targets := "t"
  out := "m"
  keys := none
  parentDays := 365
  binDays := 7
  attempts := 3

/-- The same directory, where the draft for the parent's file is a symbolic link to the file. -/
def linked : FileTree :=
  tree.put (place.entry (draftName "bins")) (.link (Path.bytes (fileName "bins")))

/-- The same directory, where the file of the bin is a symbolic link to the directory. -/
def looped : FileTree := tree.put (place.entry (fileName "0-f")) (.link [Path.point])

/-- How a build ends in this world. -/
def run (o : BuildOptions) (t : FileTree) : Outcome × FileTree :=
  (Command.outcome false (.build o)).run answer t

end Command.Sample

end BinDelegation
