import BinDelegation.Error

/-! # Strict ascent

Whether a list is in strictly ascending order by a key, and if not, where that fails first. Only
neighbours are compared.
-/

namespace BinDelegation.Ascent

/-- The position of the first key that is not above the one before it; the first key of the list is
at `position`. -/
def firstFailure? {κ : Type} [LT κ] [DecidableLT κ] (position : Nat) : List κ → Option Nat
  | a :: b :: rest =>
    if a < b then firstFailure? (position + 1) (b :: rest) else some (position + 1)
  | _ => none

/-- Refuses a list whose keys do not ascend strictly, naming the first position out of order. -/
def ensure {α κ : Type} [LT κ] [DecidableLT κ] (items : List α) (key : α → κ) :
    Except Error Unit :=
  match firstFailure? 0 (items.map key) with
  | none => .ok ()
  | some position =>
    .error (.invariant ("collection is not strictly ascending at index " ++ toString position))

end BinDelegation.Ascent
