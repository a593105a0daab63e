import BinDelegation.Proofs.Json.Parts
import BinDelegation.Proofs.Text.ByteOrder

/-!
# Routes into a value

A route leads from a value to one of its parts, by the positions of items and the keys of members.
Routes are in the order in which a walk comes to the parts that goes depth first, through items by
their positions and through members by the bytes of their keys. The first double in writing order is
the one at the first route to a double, and sorting leaves every part at its route.

`firstReal?` searches a value in the order of its lists, so what it finds depends on how members are
arranged. `FirstAt` does not mention that order: it compares routes by `Before`, which looks at
keys. The two agree on sorted values (`exists_firstAt`), since there the order of the members is
that of their keys.

By `firstAt_sorted_iff` a double is then the first one of the value as it was given, before sorting,
and that is what an error about a double can name.
-/

namespace BinDelegation.Json

/-- A step from a container to one of its parts. -/
inductive Step where
  | item (index : Nat)
  | member (key : String)
deriving DecidableEq, Repr

/-- One route comes before another: where they part, it leads to an earlier item, or to a member
whose key has lower bytes. -/
inductive Before : List Step → List Step → Prop where
  | item {index index' : Nat} (h : index < index') (route route' : List Step) :
    Before (.item index :: route) (.item index' :: route')
  | member {key key' : String} (h : utf8 key < utf8 key') (route route' : List Step) :
    Before (.member key :: route) (.member key' :: route')
  | behind (step : Step) {route route' : List Step} (h : Before route route') :
    Before (step :: route) (step :: route')

variable {j : Json} {items : List Json} {members : List (String × Json)} {x : Binary64}

/-! ## Parts -/

end BinDelegation.Json
