import BinDelegation.Error
import BinDelegation.Json.Writer

/-! # Canonical JSON

Signatures and key ids are taken over this form: members by ascending key, no blanks, the least
escaping, and integers only. A value with a double has no canonical form.
-/

namespace BinDelegation.Json

/-- The error for a value with a double. -/
def realRefused (x : Binary64) : Error :=
  .serialization ("canonical json does not allow floats: " ++ x.text)

/-- The canonical text of a value; of several doubles in it the first in writing order is named. -/
def canonicalText (j : Json) : Except Error String :=
  match j.sorted.firstReal? with
  | some x => .error (realRefused x)
  | none => .ok (write .canonical 0 "" j.sorted)

/-- The canonical bytes of a value. -/
def canonicalBytes (j : Json) : Except Error ByteArray := j.canonicalText.map String.toUTF8

end BinDelegation.Json
