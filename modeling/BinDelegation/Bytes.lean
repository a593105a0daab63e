/-! # Byte strings -/

namespace BinDelegation

/-- Byte strings are the same if their bytes are. -/
instance (priority := 2000) decidableEqBytes : DecidableEq ByteArray := fun a b =>
  decidable_of_iff (a.data = b.data) ⟨ByteArray.ext, fun h => h ▸ rfl⟩

end BinDelegation
