import BinDelegation.Proofs.Document.Binding
import BinDelegation.Proofs.Json.Routes

/-!
# Canonical bytes, part by part

A value has canonical bytes unless there is a double in one of its parts, and then the double that
comes first is named. What the bytes are written for is told by the bytes, the order of members
included: it has the parts of the value, and the keys of every object in the order of their bytes.

Parts are told by routes into a value, which go through items by their number and through members by
their key. Sorting moves members but leaves every route where it led, so what is said of the sorted
value can be said of the value that was given. `firstAt_sorted_iff` does this for the first double,
where first means first in the order in which the canonical form is written: items in order and
members by the bytes of their keys.

That the bytes are written for one value alone comes from the canonical form being unambiguous. So
the order of keys is a fact about the bytes and not about the way in which they were made.
-/

namespace BinDelegation.Json

namespace Sample

/-- One half. -/
def half : Binary64 := ⟨false, 4503599627370496, -53⟩

/-- Integers only, and no object with its keys in order. -/
def whole : Json :=
  object [("é", object [("b", natural 18446744073709551615), ("B", null)]),
    ("z", integer ⟨-1, by decide⟩)]

end Sample

end BinDelegation.Json
